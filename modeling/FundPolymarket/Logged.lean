import Mathlib.Data.List.Basic

set_option autoImplicit false

/- Computations that change a state, send messages and may raise. What was sent stays sent
when a later step raises. -/

/-- How a computation ends. -/
structure Outcome (σ μ ε α : Type) where
  sent : List μ
  state : σ
  result : Except ε α

def Logged (σ μ ε α : Type) : Type := σ → Outcome σ μ ε α

namespace Logged

variable {σ μ ε α β γ : Type}

def pure (value : α) : Logged σ μ ε α := fun s => ⟨[], s, .ok value⟩

def bind (first : Logged σ μ ε α) (next : α → Logged σ μ ε β) : Logged σ μ ε β := fun s =>
  match (first s).result with
  | .ok value =>
      let later := next value (first s).state
      ⟨(first s).sent ++ later.sent, later.state, later.result⟩
  | .error e => ⟨(first s).sent, (first s).state, .error e⟩

instance : Monad (Logged σ μ ε) where
  pure := pure
  bind := bind

def lift (result : Except ε α) : Logged σ μ ε α := fun s => ⟨[], s, result⟩

def get : Logged σ μ ε σ := fun s => ⟨[], s, .ok s⟩

def set (state : σ) : Logged σ μ ε Unit := fun _ => ⟨[], state, .ok ()⟩

/-- A message, and what comes back. -/
def send (message : μ) (answer : Except ε α) : Logged σ μ ε α := fun s => ⟨[message], s, answer⟩

/-- An `except` clause around a computation. -/
def catching (handler : Except ε α → Except ε α) (body : Logged σ μ ε α) : Logged σ μ ε α :=
  fun s => { body s with result := handler (body s).result }

section Steps

variable {x : Logged σ μ ε α} {f : α → Logged σ μ ε β} {s : σ}

theorem bind_of_ok {value : α} (returned : (x s).result = .ok value) :
    (x >>= f) s = ⟨(x s).sent ++ (f value (x s).state).sent, (f value (x s).state).state,
      (f value (x s).state).result⟩ := by
  simp only [Bind.bind, bind, returned]

theorem bind_of_error {e : ε} (raised : (x s).result = .error e) :
    (x >>= f) s = ⟨(x s).sent, (x s).state, .error e⟩ := by
  simp only [Bind.bind, bind, raised]

/-- What is returned, without the log. -/
theorem result_bind :
    ((x >>= f) s).result = ((x s).result >>= fun value => (f value (x s).state).result) := by
  cases result : (x s).result with
  | ok value => rw [bind_of_ok result]; rfl
  | error e => rw [bind_of_error result]; rfl

@[simp] theorem result_lift {result : Except ε α} :
    ((lift result : Logged σ μ ε α) s).result = result := rfl

@[simp] theorem result_pure {value : α} :
    ((Pure.pure value : Logged σ μ ε α) s).result = .ok value := rfl

@[simp] theorem result_send {message : μ} {answer : Except ε α} :
    ((send message answer : Logged σ μ ε α) s).result = answer := rfl

@[simp] theorem result_catching {handler : Except ε α → Except ε α} :
    (catching handler x s).result = handler (x s).result := rfl

@[simp] theorem lift_bind {result : Except ε α} :
    (lift result >>= f) s =
      match result with
      | .ok value => f value s
      | .error e => ⟨[], s, .error e⟩ := by
  cases result <;> rfl

@[simp] theorem get_bind {g : σ → Logged σ μ ε β} : (get >>= g) s = g s s := rfl

@[simp] theorem set_bind {state : σ} {g : Unit → Logged σ μ ε β} :
    (set state >>= g) s = g () state := rfl

end Steps

/-- From states that satisfy a condition on, every message is allowed, the condition is kept,
and a value that is returned has a property. -/
def Meets (holds : σ → Prop) (allowed : μ → Prop) (P : α → Prop) (x : Logged σ μ ε α) : Prop :=
  ∀ s, holds s → (∀ m ∈ (x s).sent, allowed m) ∧ holds (x s).state ∧
    ∀ value, (x s).result = .ok value → P value

namespace Meets

variable {holds : σ → Prop} {allowed : μ → Prop} {P : α → Prop} {Q : β → Prop}

theorem bind {x : Logged σ μ ε α} {f : α → Logged σ μ ε β} (first : x.Meets holds allowed P)
    (next : ∀ value, P value → (f value).Meets holds allowed Q) :
    (x >>= f).Meets holds allowed Q := by
  intro s held
  obtain ⟨sent, kept, returns⟩ := first s held
  cases result : (x s).result with
  | error e =>
      rw [bind_of_error result]
      exact ⟨sent, kept, fun _ returned => by cases returned⟩
  | ok value =>
      obtain ⟨laterSent, laterKept, laterReturns⟩ := next value (returns value result) _ kept
      rw [bind_of_ok result]
      refine ⟨fun m member => ?_, laterKept, laterReturns⟩
      rcases List.mem_append.mp member with early | late
      · exact sent m early
      · exact laterSent m late

theorem pure {value : α} (fits : P value) :
    (Pure.pure value : Logged σ μ ε α).Meets holds allowed P := by
  intro s held
  refine ⟨fun m member => (by cases member), held, fun other returned => ?_⟩
  cases returned
  exact fits

theorem lift {result : Except ε α} (returns : ∀ value, result = .ok value → P value) :
    (Logged.lift result : Logged σ μ ε α).Meets holds allowed P :=
  fun _ held => ⟨fun _ member => (by cases member), held, returns⟩

theorem lift_any (result : Except ε α) :
    (Logged.lift result : Logged σ μ ε α).Meets holds allowed fun _ => True :=
  .lift fun _ _ => trivial

theorem get : (Logged.get : Logged σ μ ε σ).Meets holds allowed holds := by
  intro s held
  refine ⟨fun m member => (by cases member), held, fun state returned => ?_⟩
  cases returned
  exact held

theorem set {state : σ} (held : holds state) :
    (Logged.set state : Logged σ μ ε Unit).Meets holds allowed fun _ => True :=
  fun _ _ => ⟨fun _ member => (by cases member), held, fun _ _ => trivial⟩

theorem send {message : μ} (fits : allowed message) (answer : Except ε α) :
    (Logged.send message answer : Logged σ μ ε α).Meets holds allowed fun _ => True := by
  refine fun _ held => ⟨fun m member => ?_, held, fun _ _ => trivial⟩
  rw [List.mem_singleton.mp member]
  exact fits

theorem catching {x : Logged σ μ ε α} (body : x.Meets holds allowed P)
    (handler : Except ε α → Except ε α) :
    (Logged.catching handler x).Meets holds allowed fun _ => True :=
  fun s held => ⟨(body s held).1, (body s held).2.1, fun _ _ => trivial⟩

end Meets

section Counting

variable {ν : Type} (view : μ → Option ν) {x : Logged σ μ ε α} {f : α → Logged σ μ ε β} {item : ν}
  {message : μ}

/-- Nothing that the view shows is sent. -/
def Silent (x : Logged σ μ ε α) : Prop := ∀ s, (x s).sent.filterMap view = []

/-- One message that the view shows is sent, or none and the computation raises. -/
def Once (item : ν) (x : Logged σ μ ε α) : Prop :=
  ∀ s, (x s).sent.filterMap view = [item] ∨
    (x s).sent.filterMap view = [] ∧ ∃ e, (x s).result = .error e

variable {view}

theorem Silent.bind (first : x.Silent view) (next : ∀ value, (f value).Silent view) :
    (x >>= f).Silent view := by
  intro s
  cases result : (x s).result with
  | error e =>
      rw [bind_of_error result]
      exact first s
  | ok value =>
      rw [bind_of_ok result, List.filterMap_append, first s, next value]
      rfl

theorem Silent.pure (value : α) : (Pure.pure value : Logged σ μ ε α).Silent view := fun _ => rfl

theorem Silent.lift (result : Except ε α) : (Logged.lift result : Logged σ μ ε α).Silent view :=
  fun _ => rfl

theorem Silent.get : (Logged.get : Logged σ μ ε σ).Silent view := fun _ => rfl

theorem Silent.set (state : σ) : (Logged.set state : Logged σ μ ε Unit).Silent view :=
  fun _ => rfl

theorem Silent.send (hidden : view message = none) (answer : Except ε α) :
    (Logged.send message answer : Logged σ μ ε α).Silent view := by
  intro s
  exact List.filterMap_cons_none hidden

theorem Silent.catching (body : x.Silent view) (handler : Except ε α → Except ε α) :
    (Logged.catching handler x).Silent view := body

theorem Once.send (shown : view message = some item) (answer : Except ε α) :
    (Logged.send message answer : Logged σ μ ε α).Once view item := by
  intro s
  exact .inl (List.filterMap_cons_some shown)

theorem Once.of_bind (first : x.Silent view) (next : ∀ value, (f value).Once view item) :
    (x >>= f).Once view item := by
  intro s
  cases result : (x s).result with
  | error e =>
      rw [bind_of_error result]
      exact .inr ⟨first s, e, rfl⟩
  | ok value =>
      rw [bind_of_ok result, List.filterMap_append, first s]
      exact next value _

theorem Once.bind (first : x.Once view item) (next : ∀ value, (f value).Silent view) :
    (x >>= f).Once view item := by
  intro s
  cases result : (x s).result with
  | error e =>
      rw [bind_of_error result]
      rcases first s with sent | ⟨nothing, _⟩
      · exact .inl sent
      · exact .inr ⟨nothing, e, rfl⟩
  | ok value =>
      rw [bind_of_ok result, List.filterMap_append, next value, List.append_nil]
      rcases first s with sent | ⟨_, e, raised⟩
      · exact .inl sent
      · rw [result] at raised
        cases raised

theorem Once.catching (body : x.Once view item) {handler : Except ε α → Except ε α}
    (raises : ∀ e, ∃ e', handler (.error e) = .error e') :
    (Logged.catching handler x).Once view item := by
  intro s
  rcases body s with sent | ⟨nothing, e, raised⟩
  · exact .inl sent
  · obtain ⟨e', handled⟩ := raises e
    exact .inr ⟨nothing, e', (congrArg handler raised).trans handled⟩

/-- A computation that leaves the state alone, and that the view does not see. -/
def Still (view : μ → Option ν) (x : Logged σ μ ε α) : Prop :=
  ∀ s, (x s).state = s ∧ (x s).sent.filterMap view = []

/-- To the state and to the view, the computation is another one, or nothing at all. -/
def Follows (view : μ → Option ν) (x : Logged σ μ ε α) (core : Logged σ μ ε γ) : Prop :=
  ∀ s, (x s).state = s ∧ (x s).sent.filterMap view = [] ∨
    (x s).state = (core s).state ∧ (x s).sent.filterMap view = (core s).sent.filterMap view

section Follows

variable {core : Logged σ μ ε γ}

theorem Still.lift (result : Except ε α) : (Logged.lift result : Logged σ μ ε α).Still view :=
  fun _ => ⟨rfl, rfl⟩

theorem Still.pure (value : α) : (Pure.pure value : Logged σ μ ε α).Still view :=
  fun _ => ⟨rfl, rfl⟩

theorem Still.get : (Logged.get : Logged σ μ ε σ).Still view := fun _ => ⟨rfl, rfl⟩

theorem Still.send (hidden : view message = none) (answer : Except ε α) :
    (Logged.send message answer : Logged σ μ ε α).Still view :=
  fun _ => ⟨rfl, List.filterMap_cons_none hidden⟩

theorem Still.catching (body : x.Still view) (handler : Except ε α → Except ε α) :
    (Logged.catching handler x).Still view := body

theorem Still.bind (first : x.Still view) (next : ∀ value, (f value).Still view) :
    (x >>= f).Still view := by
  intro s
  obtain ⟨state, sent⟩ := first s
  cases result : (x s).result with
  | error e =>
      rw [bind_of_error result]
      exact ⟨state, sent⟩
  | ok value =>
      obtain ⟨later, laterSent⟩ := next value (x s).state
      rw [bind_of_ok result, List.filterMap_append, sent, laterSent]
      exact ⟨later.trans state, rfl⟩

theorem Follows.self : core.Follows view core := fun _ => .inr ⟨rfl, rfl⟩

theorem Follows.catching (body : x.Follows view core) (handler : Except ε α → Except ε α) :
    (Logged.catching handler x).Follows view core := body

theorem Follows.of_bind (first : x.Still view) (next : ∀ value, (f value).Follows view core) :
    (x >>= f).Follows view core := by
  intro s
  obtain ⟨state, sent⟩ := first s
  cases result : (x s).result with
  | error e =>
      rw [bind_of_error result]
      exact .inl ⟨state, sent⟩
  | ok value =>
      rw [bind_of_ok result, List.filterMap_append, sent, state]
      exact next value s

theorem Follows.bind (first : x.Follows view core) (next : ∀ value, (f value).Still view) :
    (x >>= f).Follows view core := by
  intro s
  cases result : (x s).result with
  | error e =>
      rw [bind_of_error result]
      exact first s
  | ok value =>
      obtain ⟨later, laterSent⟩ := next value (x s).state
      rw [bind_of_ok result, List.filterMap_append, laterSent, List.append_nil, later]
      exact first s

end Follows

end Counting

end Logged
