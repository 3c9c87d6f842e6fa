import Mathlib.Data.List.Basic

set_option autoImplicit false

/- Requests that overlap: each one reads the shared state, sends its messages later, and
commits later still, with other requests in between. -/
namespace Interleaving

/-- What a request does that has seen a state: what it sends, and what its commit makes
of the state that it meets. -/
structure Protocol (σ ρ μ : Type) where
  sends : ρ → σ → List μ
  commit : ρ → σ → σ → σ

inductive Stage where
  | read
  | sent
  | done
  deriving DecidableEq

structure Flight (σ ρ : Type) where
  request : ρ
  seen : σ
  stage : Stage

/-- The shared state, the requests in the order of their reads, and the messages that
have gone out, each with its request. -/
structure World (σ ρ μ : Type) where
  shared : σ
  flights : List (Flight σ ρ)
  sent : List (ρ × μ)

inductive Act (ρ : Type) where
  | start (request : ρ)
  | send (index : ℕ)
  | commit (index : ℕ)

variable {σ ρ μ : Type}

def World.quiet (shared : σ) : World σ ρ μ := ⟨shared, [], []⟩

/-- Move a request to its next stage. -/
def World.advance (world : World σ ρ μ) (index : ℕ) (flight : Flight σ ρ) (stage : Stage) :
    List (Flight σ ρ) := world.flights.set index { flight with stage }

section Flights

variable {world : World σ ρ μ} {index : ℕ} {flight other : Flight σ ρ} {stage : Stage}

theorem World.advance_self (found : world.flights[index]? = some flight) :
    (world.advance index flight stage)[index]? = some { flight with stage } :=
  List.getElem?_set_self (List.getElem?_eq_some_iff.mp found).1

theorem World.advance_of_ne {position : ℕ} (differs : position ≠ index) :
    (world.advance index flight stage)[position]? = world.flights[position]? :=
  List.getElem?_set_ne differs.symm

theorem World.mem_advance (member : other ∈ world.advance index flight stage) :
    other ∈ world.flights ∨ other = { flight with stage } :=
  List.mem_or_eq_of_mem_set member

end Flights

/-- One act of an interleaving. An act whose request is not at that stage does nothing. -/
def step (protocol : Protocol σ ρ μ) (world : World σ ρ μ) : Act ρ → World σ ρ μ
  | .start request =>
      { world with flights := world.flights ++ [⟨request, world.shared, .read⟩] }
  | .send index =>
      match world.flights[index]? with
      | none => world
      | some flight =>
          if flight.stage = .read then
            { world with
              flights := world.advance index flight .sent
              sent := world.sent ++
                (protocol.sends flight.request flight.seen).map (Prod.mk flight.request) }
          else world
  | .commit index =>
      match world.flights[index]? with
      | none => world
      | some flight =>
          if flight.stage = .sent then
            { world with
              flights := world.advance index flight .done
              shared := protocol.commit flight.request flight.seen world.shared }
          else world

def run (protocol : Protocol σ ρ μ) (world : World σ ρ μ) (acts : List (Act ρ)) : World σ ρ μ :=
  acts.foldl (step protocol) world

/-- What an act can do. -/
inductive Moves (protocol : Protocol σ ρ μ) (world : World σ ρ μ) :
    Act ρ → World σ ρ μ → Prop where
  | idle {act : Act ρ} : Moves protocol world act world
  | start {request : ρ} :
      Moves protocol world (.start request)
        { world with flights := world.flights ++ [⟨request, world.shared, .read⟩] }
  | send {index : ℕ} {flight : Flight σ ρ} (found : world.flights[index]? = some flight)
      (stage : flight.stage = .read) :
      Moves protocol world (.send index)
        { world with
          flights := world.advance index flight .sent
          sent := world.sent ++
            (protocol.sends flight.request flight.seen).map (Prod.mk flight.request) }
  | commit {index : ℕ} {flight : Flight σ ρ} (found : world.flights[index]? = some flight)
      (stage : flight.stage = .sent) :
      Moves protocol world (.commit index)
        { world with
          flights := world.advance index flight .done
          shared := protocol.commit flight.request flight.seen world.shared }

theorem step_moves (protocol : Protocol σ ρ μ) (world : World σ ρ μ) (act : Act ρ) :
    Moves protocol world act (step protocol world act) := by
  cases act with
  | start request => exact .start
  | send index =>
      cases found : world.flights[index]? with
      | none =>
          have idle : step protocol world (.send index) = world := by
            simp only [step, found]
          rw [idle]
          exact .idle
      | some flight =>
          by_cases stage : flight.stage = .read
          · simp only [step, found, if_pos stage]
            exact .send found stage
          · simp only [step, found, if_neg stage]
            exact .idle
  | commit index =>
      cases found : world.flights[index]? with
      | none =>
          have idle : step protocol world (.commit index) = world := by
            simp only [step, found]
          rw [idle]
          exact .idle
      | some flight =>
          by_cases stage : flight.stage = .sent
          · simp only [step, found, if_pos stage]
            exact .commit found stage
          · simp only [step, found, if_neg stage]
            exact .idle

/-- A condition on every act of an interleaving, in the world that it meets. -/
def Along (protocol : Protocol σ ρ μ) (condition : World σ ρ μ → Act ρ → Prop) :
    World σ ρ μ → List (Act ρ) → Prop
  | _, [] => True
  | world, act :: acts =>
      condition world act ∧ Along protocol condition (step protocol world act) acts

instance decidableAlong (protocol : Protocol σ ρ μ) (condition : World σ ρ μ → Act ρ → Prop)
    [∀ world act, Decidable (condition world act)] :
    (world : World σ ρ μ) → (acts : List (Act ρ)) → Decidable (Along protocol condition world acts)
  | _, [] => .isTrue trivial
  | world, act :: acts =>
      have := decidableAlong protocol condition (step protocol world act) acts
      inferInstanceAs (Decidable (condition world act ∧ _))

theorem Along.and {protocol : Protocol σ ρ μ} {first second : World σ ρ μ → Act ρ → Prop}
    {world : World σ ρ μ} {acts : List (Act ρ)} (one : Along protocol first world acts)
    (two : Along protocol second world acts) :
    Along protocol (fun world act => first world act ∧ second world act) world acts := by
  induction acts generalizing world with
  | nil => trivial
  | cons act acts ih => exact ⟨⟨one.1, two.1⟩, ih one.2 two.2⟩

theorem Along.of_forall {protocol : Protocol σ ρ μ} {every : Act ρ → Prop} (world : World σ ρ μ)
    {acts : List (Act ρ)} (holds : ∀ act ∈ acts, every act) :
    Along protocol (fun _ act => every act) world acts := by
  induction acts generalizing world with
  | nil => trivial
  | cons act acts ih =>
      exact ⟨holds act List.mem_cons_self,
        ih _ fun other member => holds other (List.mem_cons_of_mem _ member)⟩

theorem run_append (protocol : Protocol σ ρ μ) (world : World σ ρ μ) (first second : List (Act ρ)) :
    run protocol world (first ++ second) = run protocol (run protocol world first) second :=
  List.foldl_append

theorem Along.append {protocol : Protocol σ ρ μ} {condition : World σ ρ μ → Act ρ → Prop}
    {world : World σ ρ μ} {first second : List (Act ρ)} :
    Along protocol condition world (first ++ second) ↔
      Along protocol condition world first ∧
        Along protocol condition (run protocol world first) second := by
  induction first generalizing world with
  | nil => exact (true_and _).symm.to_iff
  | cons act first ih => exact (and_congr_right fun _ => ih).trans and_assoc.symm

/-- What every allowed act keeps holds in every world that allowed acts reach. -/
theorem run_invariant {protocol : Protocol σ ρ μ} {condition : World σ ρ μ → Act ρ → Prop}
    {invariant : World σ ρ μ → Prop}
    (kept : ∀ world act next, condition world act → Moves protocol world act next →
      invariant world → invariant next)
    {world : World σ ρ μ} (init : invariant world) {acts : List (Act ρ)}
    (allowed : Along protocol condition world acts) : invariant (run protocol world acts) := by
  induction acts generalizing world with
  | nil => exact init
  | cons act acts ih =>
      exact ih (kept world act _ allowed.1 (step_moves protocol world act) init) allowed.2

/-- What holds of the reads of every flight, and of a read of the shared state, holds
of every flight after an act. -/
theorem Moves.forall_flights {P : ρ → σ → Prop} {protocol : Protocol σ ρ μ}
    {world next : World σ ρ μ} {act : Act ρ} (moves : Moves protocol world act next)
    (held : ∀ flight ∈ world.flights, P flight.request flight.seen)
    (reads : ∀ request, act = .start request → P request world.shared) :
    ∀ flight ∈ next.flights, P flight.request flight.seen := by
  have advanced : ∀ {index : ℕ} {flight : Flight σ ρ} {stage : Stage},
      world.flights[index]? = some flight →
      ∀ other ∈ world.advance index flight stage, P other.request other.seen := by
    intro index flight stage found other member
    rcases World.mem_advance member with same | rfl
    · exact held other same
    · exact held flight (List.mem_of_getElem? found)
  cases moves with
  | idle => exact held
  | start =>
      intro flight member
      rcases List.mem_append.mp member with old | new
      · exact held flight old
      · rw [List.mem_singleton.mp new]
        exact reads _ rfl
  | send found => exact advanced found
  | commit found => exact advanced found

section Serial

/-- A request that reads, sends and commits before anything else happens. -/
def alone (index : ℕ) (request : ρ) : List (Act ρ) :=
  [.start request, .send index, .commit index]

def serial : ℕ → List ρ → List (Act ρ)
  | _, [] => []
  | index, request :: requests => alone index request ++ serial (index + 1) requests

theorem run_alone (protocol : Protocol σ ρ μ) (world : World σ ρ μ) (request : ρ) :
    (run protocol world (alone world.flights.length request)).shared =
        protocol.commit request world.shared world.shared ∧
      (run protocol world (alone world.flights.length request)).flights.length =
        world.flights.length + 1 := by
  simp [run, alone, step, World.advance]

/-- One request after the other is a special interleaving. -/
theorem run_serial (protocol : Protocol σ ρ μ) (world : World σ ρ μ) (requests : List ρ) :
    (run protocol world (serial world.flights.length requests)).shared =
      requests.foldl (fun shared request => protocol.commit request shared shared)
        world.shared := by
  induction requests generalizing world with
  | nil => rfl
  | cons request requests ih =>
      obtain ⟨shared, length⟩ := run_alone protocol world request
      rw [serial, run, List.foldl_append, List.foldl_cons, ← shared, ← ih, ← run, length]
      rfl

end Serial

end Interleaving
