import Mathlib.Logic.Function.Basic
import TensorDiffusion.Proofs.Semidefinite
import TensorDiffusion.Proofs.Writing

/-!
# The last assembly wins

An integrator is configured, assembled and applied in any order, on spaces whose nodes are moved in
between (`Command`).  A `History` of the same commands keeps what is asked for and what was answered,
and computes nothing: the settings in force, and the latest assembly with its settings, its space
as it was, and its answer.

* `World.step_agrees`: one command keeps the integrator in agreement with its history.
* `World.asksOnce`: an assembly asks the provider once, and nothing else asks it.
* `last_assembly_wins`: after any commands the integrator behaves as a new one with the settings and
  the space of the latest assembly, or as an unassembled one if that failed.
-/

namespace TensorDiffusion

variable {α : Type}

/-! ### Settings -/

/-- What an integrator is configured with. -/
structure Settings (α : Type) where
  coefficient : Coefficient α
  rule : Option (TensorRule α) := none
  provider : Option (Provider α) := none
  execution : Execution := {}

/-- The settings in force. -/
def Integrator.settings (integrator : Integrator α) : Settings α :=
  ⟨integrator.coefficient, integrator.rule, integrator.provider, integrator.execution⟩

/-- A new integrator with some settings. -/
def Settings.integrator (settings : Settings α) : Integrator α :=
  let integrator := (Integrator.new settings.coefficient).withExecution settings.execution
  let integrator := match settings.rule with
    | some rule => integrator.withRule rule
    | none      => integrator
  match settings.provider with
  | some provider => integrator.withProvider provider
  | none          => integrator

theorem Settings.settings_integrator (settings : Settings α) :
    settings.integrator.settings = settings := by
  obtain ⟨_, rule, provider, _⟩ := settings
  cases rule <;> cases provider <;> rfl

/-! ### Commands -/

/-- What a caller may do. -/
inductive Command (α : Type) : Type 1 where
  | new (coefficient : Coefficient α)
  | withRule (rule : TensorRule α)
  | withProvider (provider : Provider α)
  | withExecution (execution : Execution)
  /-- Assembles on the space of a number. -/
  | assemble (k : Nat)
  | addMult (x y : Array α)
  | addDiagonal (diag : Array α)
  /-- Moves the nodes of the space of a number, by a function that keeps a state between nodes. -/
  | move (k : Nat) {τ : Type} (state : τ) (f : ∀ sdim, τ → Vector α sdim → τ × Vector α sdim)

/-- The spaces after the nodes of one of them were moved. -/
def moved [Zero α] (spaces : Nat → Space α) (k : Nat) {τ : Type} (state : τ)
    (f : ∀ sdim, τ → Vector α sdim → τ × Vector α sdim) : Nat → Space α :=
  Function.update spaces k ((spaces k).transformNodes (f (spaces k).sdim) state).2

/-- An integrator, the spaces of its caller, and the journal. -/
structure World (α : Type) where
  integrator : Integrator α
  spaces : Nat → Space α
  events : Array Event := #[]

/-- What a computation answers, and what it leaves. -/
def answered {σ : Type} : EStateM.Result Fault (Session σ) Unit → Except Fault Unit × Session σ
  | .ok () session       => (.ok (), session)
  | .error fault session => (.error fault, session)

variable [Zero α] [One α] [Add α] [Sub α] [Mul α] [Neg α] [Div α] [BEq α] [OfDouble α]
  [SquareRoot α] [Stored α]

/-- Carries out a command. -/
def World.step (world : World α) : Command α → Except Fault Unit × World α
  | .new coefficient => (.ok (), { world with integrator := .new coefficient })
  | .withRule rule => (.ok (), { world with integrator := world.integrator.withRule rule })
  | .withProvider provider =>
    (.ok (), { world with integrator := world.integrator.withProvider provider })
  | .withExecution execution =>
    (.ok (), { world with integrator := world.integrator.withExecution execution })
  | .assemble k =>
    let (answer, session) :=
      answered ((Integrator.assemble (world.spaces k)).run ⟨world.integrator, world.events⟩)
    (answer, { world with integrator := session.value, events := session.events })
  | .addMult x y =>
    let (answer, session) := answered ((world.integrator.addMult x).run ⟨y, world.events⟩)
    (answer, { world with events := session.events })
  | .addDiagonal diag =>
    let (answer, session) := answered (world.integrator.addDiagonal.run ⟨diag, world.events⟩)
    (answer, { world with events := session.events })
  | .move k state f => (.ok (), { world with spaces := moved world.spaces k state f })

/-- Carries out commands one after the other, and lists them with their answers. -/
def World.run (world : World α) : List (Command α) → List (Command α × Except Fault Unit) × World α
  | [] => ([], world)
  | command :: commands =>
    let (answer, world) := world.step command
    let (log, world) := world.run commands
    ((command, answer) :: log, world)

/-! ### History -/

/-- An assembly that was asked for, and its answer. -/
structure Assembly (α : Type) where
  settings : Settings α
  /-- The space as it was then. -/
  space : Space α
  answer : Except Fault Unit

/-- What was asked for and answered. -/
structure History (α : Type) where
  /-- The settings in force. -/
  settings : Settings α
  spaces : Nat → Space α
  /-- The latest assembly of the integrator. -/
  latest : Option (Assembly α) := none

/-- The history with one more command and its answer. -/
def History.note (history : History α) (answer : Except Fault Unit) : Command α → History α
  | .new coefficient => { settings := { coefficient }, spaces := history.spaces }
  | .withRule rule => { history with settings := { history.settings with rule := some rule } }
  | .withProvider provider =>
    { history with settings := { history.settings with provider := some provider } }
  | .withExecution execution =>
    { history with settings := { history.settings with execution } }
  | .assemble k =>
    { history with latest := some ⟨history.settings, history.spaces k, answer⟩ }
  | .addMult .. | .addDiagonal .. => history
  | .move k state f => { history with spaces := moved history.spaces k state f }

/-- The history of commands with their answers. -/
def History.replay (history : History α) (log : List (Command α × Except Fault Unit)) : History α :=
  log.foldl (fun history (command, answer) => history.note answer command) history

/-! ### Agreement -/

/-- A new integrator with the settings of the assembly makes this backend of its space, whatever is
in the journal. -/
def Assembly.Makes (assembly : Assembly α) (backend : Backend α) : Prop :=
  ∀ events, ∃ fresh : Session (Integrator α),
    (Integrator.assemble assembly.space).run ⟨assembly.settings.integrator, events⟩ =
      .ok () fresh ∧ fresh.value.backend = some backend

/-- An integrator that is as its history says. -/
structure World.Agrees (world : World α) (history : History α) : Prop where
  settings : world.integrator.settings = history.settings
  spaces : world.spaces = history.spaces
  provider : ∀ p, history.settings.provider = some p → p.OnlyWrites
  backend :
    (∃ assembly backend, history.latest = some assembly ∧ assembly.answer = .ok () ∧
      world.integrator.backend = some backend ∧ assembly.Makes backend) ∨
    ((∀ assembly, history.latest = some assembly → assembly.answer ≠ .ok ()) ∧
      world.integrator.backend = none)

omit [Zero α] [One α] [Add α] [Sub α] [Mul α] [Neg α] [Div α] [BEq α] [SquareRoot α] [Stored α] in
/-- The rule depends on the caller's rule only. -/
theorem Integrator.ruleFor_congr {integrator other : Integrator α}
    (h : integrator.rule = other.rule) (space : Space α) :
    integrator.ruleFor space = other.ruleFor space := by
  unfold ruleFor integrationRule noteRule
  rw [h]

/-- A backend that was assembled is made again from the settings. -/
theorem makes_of_assemble {integrator : Integrator α} {space : Space α} {events : Array Event}
    {session : Session (Integrator α)}
    (hprovider : ∀ p, integrator.provider = some p → p.OnlyWrites)
    (h : (Integrator.assemble space).run ⟨integrator, events⟩ = .ok () session) :
    ∃ backend, (∃ context, session.value = (integrator.asked context).holding backend) ∧
      Assembly.Makes ⟨integrator.settings, space, .ok ()⟩ backend := by
  obtain ⟨rule, s₁, backend, s₂, hrule, hchosen, rfl⟩ := Integrator.assemble_run_ok.1 h
  refine ⟨backend, ⟨_, rfl⟩, fun others => ?_⟩
  obtain ⟨fresh, hfresh⟩ : ∃ fresh, fresh = integrator.settings.integrator := ⟨_, rfl⟩
  have hsettings : fresh.settings = integrator.settings :=
    hfresh ▸ integrator.settings.settings_integrator
  have hcoefficient : fresh.coefficient = integrator.coefficient :=
    congrArg Settings.coefficient hsettings
  have hexecution : fresh.execution = integrator.execution :=
    congrArg Settings.execution hsettings
  have hsame : fresh.provider = integrator.provider := congrArg Settings.provider hsettings
  obtain ⟨t₁, hrule'⟩ := (Integrator.ruleFor_onlyWrites integrator space).result hrule others
  obtain ⟨t₂, hchosen'⟩ :=
    (Integrator.chosen_onlyWrites hprovider (integrator.context space rule)).result hchosen
      t₁.events
  rw [← Integrator.ruleFor_congr (congrArg Settings.rule hsettings)] at hrule'
  rw [← hsame, Integrator.context, ← hcoefficient, ← hexecution] at hchosen'
  exact ⟨_, Integrator.assemble_run_ok.2 ⟨rule, t₁, backend, t₂, hfresh ▸ hrule', hfresh ▸ hchosen',
    rfl⟩, rfl⟩

omit [Zero α] [One α] [Add α] [Sub α] [Mul α] [Neg α] [Div α] [BEq α] [OfDouble α] [SquareRoot α]
  [Stored α] in
theorem Integrator.settings_asked (integrator : Integrator α) (context : Context α) :
    (integrator.asked context).settings = integrator.settings := by
  obtain ⟨_, _, provider, _, _, _⟩ := integrator
  cases provider <;> rfl

omit [Zero α] [One α] [Add α] [Sub α] [Mul α] [Neg α] [Div α] [BEq α] [OfDouble α] [SquareRoot α]
  [Stored α] in
theorem Integrator.backend_cleared_asked (integrator : Integrator α) (context : Context α) :
    (integrator.cleared.asked context).backend = none := by
  obtain ⟨_, _, provider, _, _, _⟩ := integrator
  cases provider <;> rfl

variable {world : World α} {history : History α}

/-- An assembly that succeeds is the latest one, and the backend is its own. -/
theorem World.Agrees.assembled (h : world.Agrees history) {k : Nat}
    {session : Session (Integrator α)}
    (hrun : (Integrator.assemble (world.spaces k)).run ⟨world.integrator, world.events⟩ =
      .ok () session) :
    World.Agrees { world with integrator := session.value, events := session.events }
      (history.note (.ok ()) (.assemble k)) := by
  have hprovider : ∀ p, world.integrator.provider = some p → p.OnlyWrites := fun p hp =>
    h.provider p ((congrArg Settings.provider h.settings).symm.trans hp)
  obtain ⟨backend, ⟨context, hvalue⟩, hmakes⟩ := makes_of_assemble hprovider hrun
  have hsettings : session.value.settings = history.settings := by
    rw [hvalue, ← h.settings]
    exact world.integrator.settings_asked context
  refine ⟨hsettings, h.spaces, h.provider, .inl ⟨_, backend, rfl, rfl, ?_, ?_⟩⟩
  · exact congrArg Integrator.backend hvalue
  · rw [h.settings, h.spaces] at hmakes
    exact hmakes

/-- An assembly that fails leaves no operator, and the settings. -/
theorem Integrator.assemble_failed {integrator : Integrator α} {space : Space α}
    {events : Array Event} {fault : Fault} {session : Session (Integrator α)}
    (h : (assemble space).run ⟨integrator, events⟩ = .error fault session) :
    session.value.settings = integrator.settings ∧ session.value.backend = none := by
  rcases assemble_run_error h with ⟨rule, -, hvalue⟩ | ⟨hvalue, -⟩
  · rw [hvalue]
    exact ⟨integrator.cleared.settings_asked _, integrator.backend_cleared_asked _⟩
  · rw [hvalue]
    exact ⟨rfl, rfl⟩

/-- An assembly that fails is the latest one, and there is no backend. -/
theorem World.Agrees.failed (h : world.Agrees history) {k : Nat} {fault : Fault}
    {session : Session (Integrator α)}
    (hrun : (Integrator.assemble (world.spaces k)).run ⟨world.integrator, world.events⟩ =
      .error fault session) :
    World.Agrees { world with integrator := session.value, events := session.events }
      (history.note (.error fault) (.assemble k)) := by
  obtain ⟨hsettings, hbackend⟩ := Integrator.assemble_failed hrun
  refine ⟨hsettings.trans h.settings, h.spaces, h.provider, .inr ⟨?_, hbackend⟩⟩
  rintro _ hlatest
  obtain rfl := Option.some.inj hlatest
  exact fun hok => nomatch hok

/-- **One command** keeps the integrator in agreement with its history. -/
theorem World.step_agrees (h : world.Agrees history) {command : Command α}
    (hcommand : ∀ p, command = .withProvider p → p.OnlyWrites) :
    (world.step command).2.Agrees (history.note (world.step command).1 command) := by
  cases command with
  | new coefficient =>
    exact ⟨rfl, h.spaces, fun _ hp => (nomatch hp), .inr ⟨fun _ ha => (nomatch ha), rfl⟩⟩
  | withRule rule =>
    have hsettings : (world.integrator.withRule rule).settings =
        { history.settings with rule := some rule } := h.settings ▸ rfl
    exact ⟨hsettings, h.spaces, h.provider, h.backend⟩
  | withProvider provider =>
    have hsettings : (world.integrator.withProvider provider).settings =
        { history.settings with provider := some provider } := h.settings ▸ rfl
    refine ⟨hsettings, h.spaces, fun p hp => ?_, h.backend⟩
    obtain rfl := Option.some.inj hp
    exact hcommand _ rfl
  | withExecution execution =>
    have hsettings : (world.integrator.withExecution execution).settings =
        { history.settings with execution } := h.settings ▸ rfl
    exact ⟨hsettings, h.spaces, h.provider, h.backend⟩
  | assemble k =>
    cases hrun : (Integrator.assemble (world.spaces k)).run ⟨world.integrator, world.events⟩ with
    | ok _ session =>
      rw [step, hrun]
      exact h.assembled hrun
    | error fault session =>
      rw [step, hrun]
      exact h.failed hrun
  | addMult x y => exact ⟨h.settings, h.spaces, h.provider, h.backend⟩
  | addDiagonal diag => exact ⟨h.settings, h.spaces, h.provider, h.backend⟩
  | move k state f =>
    refine ⟨h.settings, ?_, h.provider, h.backend⟩
    show moved world.spaces k state f = moved history.spaces k state f
    rw [h.spaces]

/-- **A run of commands** keeps the integrator in agreement with its history. -/
theorem World.run_agrees (h : world.Agrees history) {commands : List (Command α)}
    (hcommands : ∀ p, .withProvider p ∈ commands → p.OnlyWrites) :
    (world.run commands).2.Agrees (history.replay (world.run commands).1) := by
  induction commands generalizing world history with
  | nil => exact h
  | cons command commands ih =>
    have hstep := World.step_agrees h fun p (hp : command = .withProvider p) =>
      hcommands p (hp ▸ List.mem_cons_self)
    exact ih hstep fun p hp => hcommands p (List.mem_cons_of_mem command hp)

/-! ### Questions -/

omit [Zero α] [One α] [Add α] [Sub α] [Mul α] [Neg α] [Div α] [BEq α] [OfDouble α] [SquareRoot α]
  [Stored α] in
theorem Integrator.questions_asked {integrator : Integrator α} {provider : Provider α}
    (h : integrator.provider = some provider) (context : Context α) :
    (integrator.asked context).questions =
      integrator.questions.push ⟨context, provider.accepts context⟩ := by
  rw [asked, h]

/-- The questions after a command that asks none.  A new integrator has asked nothing yet, and a new
provider was asked nothing yet. -/
def Command.questionsAfter (command : Command α) (questions : Array (Question α)) :
    Array (Question α) :=
  match command with
  | .new _ | .withProvider _ => #[]
  | _                        => questions

/-- Only an assembly asks the provider, and it asks once: about the space as it is, the rule for it,
and the settings in force.  It does not come to that where a precondition is broken while the rule
is looked for. -/
structure World.AsksOnce (world : World α) : Prop where
  assembly : ∀ k provider, world.integrator.provider = some provider →
    let (answer, next) := world.step (.assemble k)
    (∃ rule, world.integrator.integrationRule (world.spaces k) = .ok rule ∧
      let context := world.integrator.context (world.spaces k) rule
      next.integrator.questions =
        world.integrator.questions.push ⟨context, provider.accepts context⟩) ∨
    next.integrator.questions = world.integrator.questions ∧
      ∃ cause found, answer = .error (.violated cause) ∧
        (world.integrator.ruleFor (world.spaces k)).run ⟨(), world.events⟩ =
          .error (.violated cause) found
  otherwise : ∀ command, (∀ k, command ≠ .assemble k) →
    (world.step command).2.integrator.questions =
      command.questionsAfter world.integrator.questions

/-- **A provider is asked once** in every assembly, and never else. -/
theorem World.asksOnce (world : World α) : world.AsksOnce where
  assembly k provider hprovider := by
    cases hrun : (Integrator.assemble (world.spaces k)).run ⟨world.integrator, world.events⟩ with
    | ok _ session =>
      obtain ⟨rule, _, backend, _, hrule, -, rfl⟩ := Integrator.assemble_run_ok.1 hrun
      rw [step, hrun]
      exact .inl ⟨rule, Integrator.ruleFor_eq_ok hrule, Integrator.questions_asked hprovider _⟩
    | error fault session =>
      rw [step, hrun]
      rcases Integrator.assemble_run_error hrun with
        ⟨rule, hrule, hvalue⟩ | ⟨hvalue, cause, found, rfl, hfound⟩
      · have hcleared : world.integrator.cleared.provider = some provider := hprovider
        exact .inl ⟨rule, hrule, (congrArg Integrator.questions hvalue).trans
          (Integrator.questions_asked hcleared _)⟩
      · have hsame : session.value.questions = world.integrator.cleared.questions :=
          congrArg Integrator.questions hvalue
        exact .inr ⟨hsame, cause, found, rfl, hfound⟩
  otherwise command hcommand := by
    cases command with
    | assemble k => exact absurd rfl (hcommand k)
    | _ => rfl

/-! ### Behaviour -/

/-- Nothing that an integrator shows or does tells it from another one. -/
structure Integrator.ActsAs (integrator other : Integrator α) : Prop where
  backendName : integrator.backendName = other.backendName
  operatorData : integrator.operatorData = other.operatorData
  addMult : ∀ x, integrator.addMult x = other.addMult x
  addDiagonal : integrator.addDiagonal = other.addDiagonal

/-- The integrator has no operator to show, and refuses every application without touching the
output. -/
structure Integrator.Inert (integrator : Integrator α) : Prop where
  backendName : integrator.backendName = none
  operatorData : integrator.operatorData = none
  addMult : ∀ x y events, (integrator.addMult x).run ⟨y, events⟩ =
    .error (.refused .notAssembled) ⟨y, events⟩
  addDiagonal : ∀ diag events, integrator.addDiagonal.run ⟨diag, events⟩ =
    .error (.refused .notAssembled) ⟨diag, events⟩

omit [One α] [Sub α] [Neg α] [Div α] [BEq α] [OfDouble α] [SquareRoot α] in
theorem Integrator.inert_of_backend {integrator : Integrator α} (h : integrator.backend = none) :
    integrator.Inert := by
  have hassembled : integrator.assembled = .error (.refused .notAssembled) := by
    rw [Integrator.assembled, h]
    rfl
  refine ⟨by rw [backendName, h]; rfl, by rw [operatorData, h]; rfl, fun x y events => ?_,
    fun diag events => ?_⟩
  · rw [addMult, run_bind_error (run_ofExcept_error hassembled _)]
  · rw [addDiagonal, run_bind_error (run_ofExcept_error hassembled _)]

omit [One α] [Sub α] [Neg α] [Div α] [BEq α] [OfDouble α] [SquareRoot α] in
/-- The backend is all that is seen of an integrator by who applies it. -/
theorem Integrator.actsAs_of_backend {integrator other : Integrator α}
    (h : integrator.backend = other.backend) : integrator.ActsAs other := by
  refine ⟨by rw [backendName, h, ← backendName], by rw [operatorData, h, ← operatorData],
    fun x => ?_, ?_⟩
  · simp only [addMult, Integrator.assembled, h]
  · simp only [addDiagonal, Integrator.assembled, h]

theorem World.Agrees.isAssembled_iff (h : world.Agrees history) :
    world.integrator.isAssembled ↔
      ∃ assembly, history.latest = some assembly ∧ assembly.answer = .ok () := by
  rcases h.backend with ⟨assembly, backend, hlatest, hanswer, hbackend, -⟩ | ⟨hfailed, hnone⟩
  · refine ⟨fun _ => ⟨assembly, hlatest, hanswer⟩, fun _ => ?_⟩
    rw [Integrator.isAssembled, hbackend]
    rfl
  · refine ⟨fun hassembled => ?_, fun ⟨assembly, hlatest, hanswer⟩ =>
      absurd hanswer (hfailed assembly hlatest)⟩
    rw [Integrator.isAssembled, hnone] at hassembled
    exact nomatch hassembled

/-- After an assembly that succeeded the integrator acts as a new one. -/
theorem World.Agrees.actsAs_fresh (h : world.Agrees history) {assembly : Assembly α}
    (hlatest : history.latest = some assembly) (hanswer : assembly.answer = .ok ())
    (events : Array Event) :
    ∃ fresh : Session (Integrator α),
      (Integrator.assemble assembly.space).run ⟨assembly.settings.integrator, events⟩ =
        .ok () fresh ∧ world.integrator.ActsAs fresh.value := by
  rcases h.backend with ⟨_, backend, hlatest', -, hbackend, hmakes⟩ | ⟨hfailed, -⟩
  · obtain rfl := Option.some.inj (hlatest.symm.trans hlatest')
    obtain ⟨fresh, hfresh, hsame⟩ := hmakes events
    exact ⟨fresh, hfresh, Integrator.actsAs_of_backend (hbackend.trans hsame.symm)⟩
  · exact absurd hanswer (hfailed assembly hlatest)

/-- Before an assembly, and after one that failed, there is nothing to apply. -/
theorem World.Agrees.inert (h : world.Agrees history)
    (hfailed : ∀ assembly, history.latest = some assembly → assembly.answer ≠ .ok ()) :
    world.integrator.Inert := by
  rcases h.backend with ⟨assembly, _, hlatest, hanswer, -⟩ | ⟨-, hnone⟩
  · exact absurd hanswer (hfailed assembly hlatest)
  · exact Integrator.inert_of_backend hnone

/-- **The last assembly wins.**  After any commands an integrator is assembled exactly if there was
an assembly and the latest one succeeded.  Then it acts as a new integrator with the settings of
that assembly, assembled on the space as it was then.  Otherwise it is inert.  A provider is asked
once in every assembly, about its own problem, and never else. -/
theorem last_assembly_wins (coefficient : Coefficient α) (spaces : Nat → Space α)
    (events : Array Event) (commands : List (Command α))
    (hcommands : ∀ p, .withProvider p ∈ commands → p.OnlyWrites) :
    let (log, world) := World.run ⟨.new coefficient, spaces, events⟩ commands
    let history := History.replay { settings := { coefficient }, spaces } log
    (world.integrator.isAssembled ↔
      ∃ assembly, history.latest = some assembly ∧ assembly.answer = .ok ()) ∧
    (∀ assembly, history.latest = some assembly → assembly.answer = .ok () → ∀ events,
      ∃ fresh : Session (Integrator α),
        (Integrator.assemble assembly.space).run ⟨assembly.settings.integrator, events⟩ =
          .ok () fresh ∧ world.integrator.ActsAs fresh.value) ∧
    ((∀ assembly, history.latest = some assembly → assembly.answer ≠ .ok ()) →
      world.integrator.Inert) ∧
    world.AsksOnce := by
  have hstart : World.Agrees ⟨.new coefficient, spaces, events⟩
      ({ settings := { coefficient }, spaces } : History α) :=
    ⟨rfl, rfl, fun _ hp => (nomatch hp), .inr ⟨fun _ ha => (nomatch ha), rfl⟩⟩
  have hagrees := World.run_agrees hstart hcommands
  exact ⟨hagrees.isAssembled_iff, fun _ => hagrees.actsAs_fresh, hagrees.inert, World.asksOnce _⟩

/-! ### A run -/

/-- A run that sets up an integrator for the sheared face. -/
noncomputable def shearedSetup : List (Command ℝ) :=
  [.withRule middleRule, .withProvider (Provider.dense 64)]

/-- A run that then assembles the sheared face, asks for other settings and moves the face. -/
noncomputable def shearedRun : List (Command ℝ) :=
  shearedSetup ++ [.assemble 0, .withExecution { limits := ⟨1, 1⟩ },
    .move 0 () fun _ _ x => ((), x.map (· + 1)), .addDiagonal #[0]]

theorem shearedRun_onlyWrites (p : Provider ℝ) (hp : .withProvider p ∈ shearedRun) :
    p.OnlyWrites := by
  simp only [shearedRun, shearedSetup, List.cons_append, List.nil_append, List.mem_cons,
    List.not_mem_nil, or_false, reduceCtorEq, false_or, Command.withProvider.injEq] at hp
  exact hp ▸ Provider.denseIf_onlyWrites _

/-- The operator of the sheared face outlives what is asked for later, and the provider was asked
once. -/
theorem last_assembly_wins_sheared_run :
    let world := (World.run ⟨.new (.constant 1), fun _ => shearedFace, #[]⟩ shearedRun).2
    world.integrator.isAssembled ∧ world.integrator.queries = 1 ∧
      ∃ fresh : Session (Integrator ℝ),
        (Integrator.assemble shearedFace).run ⟨denseIntegrator, #[]⟩ = .ok () fresh ∧
        world.integrator.ActsAs fresh.value := by
  obtain ⟨assembled, hrun⟩ := assemble_shearedFace
  obtain ⟨-, -, -, hasks⟩ :=
    last_assembly_wins (.constant (1 : ℝ)) (fun _ => shearedFace) #[] shearedSetup
      fun p hp => shearedRun_onlyWrites p (List.mem_append_left _ hp)
  obtain ⟨hassembled, hfresh, -⟩ :=
    last_assembly_wins (.constant (1 : ℝ)) (fun _ => shearedFace) #[] shearedRun
      shearedRun_onlyWrites
  have hanswer : (answered ((Integrator.assemble shearedFace).run ⟨denseIntegrator, #[]⟩)).1 =
      .ok () := by
    rw [hrun]
    rfl
  obtain ⟨fresh, hagain, hacts⟩ := hfresh _ rfl hanswer #[]
  refine ⟨hassembled.2 ⟨_, rfl, hanswer⟩, ?_, fresh, hagain, hacts⟩
  rcases hasks.assembly 0 (Provider.dense 64) rfl with
    ⟨rule, -, hquestions⟩ | ⟨-, cause, _, hcause, -⟩
  · exact congrArg Array.size hquestions
  · exact nomatch hanswer.symm.trans hcause

end TensorDiffusion
