import TensorDiffusion.Integrator
import TensorDiffusion.Proofs.Rules
import TensorDiffusion.Proofs.Selection

/-!
# The assembly of an integrator

An assembly takes a rule (`Integrator.ruleFor`), asks the provider once, and makes a backend of what
is known then (`Integrator.chosen`).  All that it does is said by `assemble_run_ok` and the two
lemmas beside it, one for every step that can fail: the earlier backend is discarded first, and a
new one is kept only if every step returned.
-/

namespace TensorDiffusion

variable {α : Type}

/-! ### Computations with a journal -/

namespace Run

variable {σ β : Type} {value : σ} {events : Array Event}

theorem run_value : (Run.value : Run σ σ).run ⟨value, events⟩ = .ok value ⟨value, events⟩ := rfl

theorem run_put (next : σ) : (put next).run ⟨value, events⟩ = .ok () ⟨next, events⟩ := rfl

theorem run_aside_ok {run : Run Unit β} {result : β} {inner : Session Unit}
    (h : run.run ⟨(), events⟩ = .ok result inner) :
    (aside run).run ⟨value, events⟩ = .ok result ⟨value, inner.events⟩ := by
  show aside run ⟨value, events⟩ = _
  rw [aside, show run ⟨(), events⟩ = .ok result inner from h]

theorem run_aside_error {run : Run Unit β} {fault : Fault} {inner : Session Unit}
    (h : run.run ⟨(), events⟩ = .error fault inner) :
    (aside run).run ⟨value, events⟩ = .error fault ⟨value, inner.events⟩ := by
  show aside run ⟨value, events⟩ = _
  rw [aside, show run ⟨(), events⟩ = .error fault inner from h]

theorem map_aside {γ : Type} (f : β → γ) (run : Run Unit β) :
    (f <$> aside run : Run σ γ) = aside (f <$> run) := by
  funext ⟨value, events⟩
  show EStateM.map f (aside run) ⟨value, events⟩ = aside (EStateM.map f run) ⟨value, events⟩
  simp only [EStateM.map, aside]
  cases run ⟨(), events⟩ <;> rfl

end Run

namespace Integrator

/-- The integrator without an operator. -/
def cleared (integrator : Integrator α) : Integrator α :=
  { integrator with backend := none }

/-- The integrator after its provider, if it has one, was asked once more. -/
def asked (integrator : Integrator α) (context : Context α) : Integrator α :=
  match integrator.provider with
  | none          => integrator
  | some provider =>
    { integrator with
      questions := integrator.questions.push ⟨context, provider.accepts context⟩ }

theorem run_ask {integrator : Integrator α} {provider : Provider α} {context : Context α}
    {events : Array Event} (h : integrator.provider = some provider) :
    (ask provider context).run ⟨integrator, events⟩ =
      .ok (provider.accepts context) ⟨integrator.asked context, events⟩ := by
  obtain ⟨coefficient, rule, _, questions, execution, backend⟩ := integrator
  obtain rfl := h
  rfl

/-- The integrator with an operator. -/
def holding (integrator : Integrator α) (backend : Backend α) : Integrator α :=
  { integrator with backend := some backend }

/-- That the earlier operator was discarded is not seen once there is another one. -/
theorem cleared_asked_holding (integrator : Integrator α) (context : Context α)
    (backend : Backend α) :
    (integrator.cleared.asked context).holding backend =
      (integrator.asked context).holding backend := by
  obtain ⟨_, _, provider, _, _, _⟩ := integrator
  cases provider <;> rfl

/-- What the operator on a space is assembled from. -/
def context (integrator : Integrator α) (space : Space α) (rule : TensorRule α) : Context α :=
  ⟨space, rule, integrator.coefficient, integrator.execution⟩

section

variable [OfDouble α]

/-- Records that a rule of the caller's has fewer points than the default one. -/
def noteRule (integrator : Integrator α) (space : Space α) (rule : TensorRule α) :
    Run Unit Unit := do
  if integrator.rule.isSome ∧ 1 < space.dim then
    let default ← ofExcept (TensorRule.diffusionPoints1d space.dim space.order)
    if rule.numPoints1d < default then
      Run.record (.underIntegrated rule.numPoints1d space.order default)

/-- The rule for a space, and a record if it is the caller's and has few points. -/
def ruleFor (integrator : Integrator α) (space : Space α) : Run Unit (TensorRule α) := do
  let rule ← ofExcept (integrator.integrationRule space)
  integrator.noteRule space rule
  return rule

omit [OfDouble α] in
/-- A record is made aside of the integrator. -/
theorem recordUnderIntegration_eq (integrator : Integrator α) (space : Space α)
    (rule : TensorRule α) :
    recordUnderIntegration integrator space rule = Run.aside (integrator.noteRule space rule) := by
  funext ⟨value, events⟩
  unfold recordUnderIntegration noteRule
  split
  · cases hdefault : TensorRule.diffusionPoints1d space.dim space.order with
    | error fault => rfl
    | ok default =>
      show (if rule.numPoints1d < default then _ else _ : Run (Integrator α) Unit) ⟨value, events⟩ =
        Run.aside (if rule.numPoints1d < default then _ else _ : Run Unit Unit) ⟨value, events⟩
      split <;> rfl
  · rfl

theorem integrationRule_neverRefuses (integrator : Integrator α) (space : Space α) :
    NeverRefuses (integrator.integrationRule space) := by
  unfold integrationRule
  split
  · exact .ok _
  · exact TensorRule.forDiffusion_neverRefuses _ _

/-- The rule of an integrator is as it is made if the caller's is. -/
theorem built_integrationRule [Mul α] [Stored α] {integrator : Integrator α} {space : Space α}
    {rule : TensorRule α} (hrule : ∀ rule, integrator.rule = some rule → rule.Built)
    (h : integrator.integrationRule space = .ok rule) : rule.Built := by
  unfold integrationRule at h
  split at h
  · next own hown =>
    obtain rfl := Except.ok.inj h
    exact hrule own hown
  · obtain ⟨n, -, h⟩ := bind_eq_ok.1 h
    exact .gauss h

omit [OfDouble α] in
theorem noteRule_error {integrator : Integrator α} {space : Space α} {rule : TensorRule α}
    {s s' : Session Unit} {fault : Fault}
    (h : (integrator.noteRule space rule).run s = .error fault s') :
    ∃ cause, fault = .violated cause := by
  unfold noteRule at h
  split at h
  · cases hdefault : TensorRule.diffusionPoints1d space.dim space.order with
    | error cause =>
      rw [hdefault] at h
      cases h
      exact (TensorRule.diffusionPoints1d_neverRefuses _ _).error_eq hdefault
    | ok default =>
      rw [run_bind_ok (run_ofExcept hdefault s)] at h
      split at h <;> exact nomatch h
  · exact nomatch h

/-- No rule is refused. -/
theorem ruleFor_error {integrator : Integrator α} {space : Space α} {s s' : Session Unit}
    {fault : Fault} (h : (integrator.ruleFor space).run s = .error fault s') :
    ∃ cause, fault = .violated cause := by
  cases hrule : integrator.integrationRule space with
  | error cause =>
    rw [ruleFor, hrule] at h
    cases h
    exact (integrationRule_neverRefuses integrator space).error_eq hrule
  | ok rule =>
    rw [ruleFor, run_bind_ok (run_ofExcept hrule s)] at h
    cases hnote : (integrator.noteRule space rule).run s with
    | error cause s₁ =>
      rw [run_bind_error hnote] at h
      cases h
      exact noteRule_error hnote
    | ok _ s₁ =>
      rw [run_bind_ok hnote] at h
      exact nomatch h

/-- The rule found is the one that the integrator has for the space. -/
theorem ruleFor_eq_ok {integrator : Integrator α} {space : Space α} {s s' : Session Unit}
    {rule : TensorRule α} (h : (integrator.ruleFor space).run s = .ok rule s') :
    integrator.integrationRule space = .ok rule := by
  obtain ⟨found, s₁, hfound, h⟩ := run_bind_eq_ok.1 h
  obtain ⟨hrule, rfl⟩ := run_ofExcept_eq_ok.1 hfound
  obtain ⟨_, s₂, -, h⟩ := run_bind_eq_ok.1 h
  cases h
  exact hrule

/-- The first steps of an assembly find the rule. -/
theorem ruleFor_run (integrator : Integrator α) {space : Space α} {events : Array Event} {β : Type}
    (next : TensorRule α → Run (Integrator α) β) :
    (do
      let rule ← ofExcept (integrator.integrationRule space)
      recordUnderIntegration integrator space rule
      next rule : Run (Integrator α) β).run ⟨integrator, events⟩ =
      match (integrator.ruleFor space).run ⟨(), events⟩ with
      | .ok rule s => (next rule).run ⟨integrator, s.events⟩
      | .error fault s => .error fault ⟨integrator, s.events⟩ := by
  cases hrule : integrator.integrationRule space with
  | error fault =>
    rw [ruleFor, run_bind_error (run_ofExcept_error hrule _)]
    exact run_bind_error (run_ofExcept_error rfl _)
  | ok rule =>
    rw [run_bind_ok (run_ofExcept rfl _), recordUnderIntegration_eq, ruleFor,
      run_bind_ok (run_ofExcept hrule _)]
    cases hnote : (integrator.noteRule space rule).run ⟨(), events⟩ with
    | error fault s => rw [run_bind_error (Run.run_aside_error hnote), run_bind_error hnote]
    | ok _ s =>
      rw [run_bind_ok (Run.run_aside_ok hnote), run_bind_ok hnote]
      rfl

end

variable [Zero α] [One α] [Add α] [Sub α] [Mul α] [Neg α] [Div α] [BEq α] [OfDouble α]
  [SquareRoot α] [Stored α] {integrator : Integrator α} {space : Space α} {events : Array Event}

/-- The backend that is made of a context: the provider's if it accepts, else a sum-factorized
one. -/
def chosen (provider : Option (Provider α)) (context : Context α) : Run Unit (Backend α) :=
  match provider with
  | none => .factorized <$> Factorized.assemble context
  | some provider =>
    if provider.accepts context then provider.create context
    else .factorized <$> Factorized.assemble context

/-- The provider is asked once, and the choice is made. -/
theorem assembleBackend_eq (integrator : Integrator α) (events : Array Event)
    (context : Context α) :
    (assembleBackend context).run ⟨integrator, events⟩ =
      (Run.aside (chosen integrator.provider context)).run
        ⟨integrator.asked context, events⟩ := by
  rw [assembleBackend, run_bind_ok Run.run_value]
  cases hprovider : integrator.provider with
  | none => rw [Run.map_aside, asked, hprovider]; rfl
  | some provider =>
    dsimp only
    rw [run_bind_ok (run_ask hprovider)]
    unfold chosen
    dsimp only
    split
    · rfl
    · rw [Run.map_aside]

/-- What an assembly does. -/
theorem assemble_eq :
    (assemble space).run ⟨integrator, events⟩ =
      match (integrator.ruleFor space).run ⟨(), events⟩ with
      | .error fault s => .error fault ⟨integrator.cleared, s.events⟩
      | .ok rule s =>
        match (chosen integrator.provider (integrator.context space rule)).run s with
        | .error fault s => .error fault
            ⟨integrator.cleared.asked (integrator.context space rule), s.events⟩
        | .ok backend s => .ok ()
            ⟨(integrator.asked (integrator.context space rule)).holding backend,
            s.events.push (.assembled backend.name space.numElements)⟩ := by
  rw [assemble, run_bind_ok Run.run_value, run_bind_ok (Run.run_put _)]
  refine (ruleFor_run integrator.cleared _).trans ?_
  have hrule : integrator.cleared.ruleFor space = integrator.ruleFor space := rfl
  rw [hrule]
  cases (integrator.ruleFor space).run ⟨(), events⟩ with
  | error fault s => rfl
  | ok rule s =>
    have hbackend := assembleBackend_eq integrator.cleared s.events (integrator.context space rule)
    dsimp only
    cases hchosen : (chosen integrator.provider (integrator.context space rule)).run s with
    | error fault s₁ =>
      exact run_bind_error (hbackend.trans (Run.run_aside_error hchosen))
    | ok backend s₁ =>
      refine (run_bind_ok (hbackend.trans (Run.run_aside_ok hchosen))).trans ?_
      rw [run_bind_ok (Run.run_record _), run_bind_ok Run.run_value]
      dsimp only
      rw [← cleared_asked_holding]
      rfl

/-- **An assembly that succeeds** has found a rule and made a backend, and has changed nothing but
the backend and the questions. -/
theorem assemble_run_ok {s : Session (Integrator α)} :
    (assemble space).run ⟨integrator, events⟩ = .ok () s ↔
      ∃ rule s₁ backend s₂, (integrator.ruleFor space).run ⟨(), events⟩ = .ok rule s₁ ∧
        (chosen integrator.provider (integrator.context space rule)).run s₁ = .ok backend s₂ ∧
        s = ⟨(integrator.asked (integrator.context space rule)).holding backend,
          s₂.events.push (.assembled backend.name space.numElements)⟩ := by
  rw [assemble_eq]
  constructor
  · intro h
    split at h
    · exact nomatch h
    · next rule s₁ hrule =>
      split at h
      · exact nomatch h
      · next backend s₂ hchosen =>
        cases h
        exact ⟨rule, s₁, backend, s₂, hrule, hchosen, rfl⟩
  · rintro ⟨rule, s₁, backend, s₂, hrule, hchosen, rfl⟩
    rw [hrule]
    dsimp only
    rw [hchosen]

/-- **An assembly that fails** leaves the integrator unassembled.  It has asked the provider unless
it has found no rule. -/
theorem assemble_run_error {fault : Fault} {s : Session (Integrator α)}
    (h : (assemble space).run ⟨integrator, events⟩ = .error fault s) :
    (∃ rule, integrator.integrationRule space = .ok rule ∧
      s.value = integrator.cleared.asked (integrator.context space rule)) ∨
      s.value = integrator.cleared ∧ ∃ cause s', fault = .violated cause ∧
        (integrator.ruleFor space).run ⟨(), events⟩ = .error (.violated cause) s' := by
  rw [assemble_eq] at h
  split at h
  · next hrule =>
    cases h
    obtain ⟨cause, rfl⟩ := ruleFor_error hrule
    exact .inr ⟨rfl, cause, _, rfl, hrule⟩
  · next hrule =>
    split at h
    · cases h
      exact .inl ⟨_, ruleFor_eq_ok hrule, rfl⟩
    · exact nomatch h

end Integrator

end TensorDiffusion
