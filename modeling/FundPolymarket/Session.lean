import Mathlib.Data.List.Nodup

set_option autoImplicit false

/- Code that raises and code that commits: inversion rules for `Except`, and a loop
whose visits share one transaction that every failure rolls back as a whole. -/
namespace FundPolymarket

/-- `if c: raise e`. -/
def raiseIf {ε : Type} (c : Prop) [Decidable c] (e : ε) : Except ε Unit :=
  if c then .error e else .ok ()

/-- A missing value raises. -/
def orRaise {ε α : Type} (e : ε) : Option α → Except ε α
  | some value => .ok value
  | none => .error e

section Inversion

variable {ε α β : Type}

theorem bind_eq_ok {x : Except ε α} {f : α → Except ε β} {result : β} :
    (x >>= f) = .ok result ↔ ∃ value, x = .ok value ∧ f value = .ok result := by
  cases x with
  | error e => simp [bind, Except.bind]
  | ok value => simp [bind, Except.bind]

theorem ok_bind (value : α) (f : α → Except ε β) : (.ok value >>= f) = f value := rfl

@[simp] theorem raiseIf_eq_ok {c : Prop} [Decidable c] {e : ε} {done : Unit} :
    raiseIf c e = .ok done ↔ ¬ c := by
  unfold raiseIf
  split <;> simp_all

@[simp] theorem orRaise_eq_ok {e : ε} {x : Option α} {value : α} :
    orRaise e x = .ok value ↔ x = some value := by
  cases x <;> simp [orRaise]

theorem raiseIf_bind_eq_ok {c : Prop} [Decidable c] {e : ε} {f : Unit → Except ε β} {result : β} :
    (raiseIf c e >>= f) = .ok result ↔ ¬ c ∧ f () = .ok result := by
  rw [bind_eq_ok]
  constructor
  · rintro ⟨_, passed, rest⟩
    exact ⟨raiseIf_eq_ok.mp passed, rest⟩
  · rintro ⟨passed, rest⟩
    exact ⟨(), raiseIf_eq_ok.mpr passed, rest⟩

theorem raiseIf_bind_of_holds {c : Prop} [Decidable c] {e : ε} {f : Unit → Except ε β}
    (holds : c) : (raiseIf c e >>= f) = .error e := by
  rw [raiseIf, if_pos holds]
  rfl

theorem map_eq_ok {x : Except ε α} {f : α → β} {result : β} :
    (f <$> x) = .ok result ↔ ∃ value, x = .ok value ∧ f value = result := by
  cases x with
  | error e => simp [Functor.map, Except.map]
  | ok value => simp [Functor.map, Except.map]

theorem mapError_eq_ok {ε' : Type} {x : Except ε α} {f : ε → ε'} {value : α} :
    x.mapError f = .ok value ↔ x = .ok value := by
  cases x <;> simp [Except.mapError]

theorem toOption_eq_some {x : Except ε α} {value : α} :
    x.toOption = some value ↔ x = .ok value := by
  cases x <;> simp [Except.toOption]

/-- A list of fallible results, in order. -/
theorem mapM_eq_ok_cons {f : α → Except ε β} {head : α} {tail : List α} {results : List β} :
    (head :: tail).mapM f = .ok results ↔
      ∃ first rest, f head = .ok first ∧ tail.mapM f = .ok rest ∧ results = first :: rest := by
  rw [List.mapM_cons, bind_eq_ok]
  constructor
  · rintro ⟨first, firstOk, rest⟩
    obtain ⟨others, othersOk, same⟩ := bind_eq_ok.mp rest
    exact ⟨first, others, firstOk, othersOk, (Except.ok.inj same).symm⟩
  · rintro ⟨first, rest, firstOk, restOk, rfl⟩
    exact ⟨first, firstOk, bind_eq_ok.mpr ⟨rest, restOk, rfl⟩⟩

theorem mapM_congr {f g : α → Except ε β} {values : List α}
    (same : ∀ value ∈ values, f value = g value) : values.mapM f = values.mapM g := by
  induction values with
  | nil => rfl
  | cons head tail ih =>
      rw [List.mapM_cons, List.mapM_cons, same head (by simp),
        ih fun value member => same value (by simp [member])]

/-- Every result of a successful pass comes from one element, in the same position. -/
theorem mapM_forall₂ {f : α → Except ε β} {values : List α} {results : List β}
    (success : values.mapM f = .ok results) :
    List.Forall₂ (fun value result => f value = .ok result) values results := by
  induction values generalizing results with
  | nil =>
      cases success
      exact .nil
  | cons head tail ih =>
      obtain ⟨first, rest, firstOk, restOk, rfl⟩ := mapM_eq_ok_cons.mp success
      exact .cons firstOk (ih restOk)

/-- A pass succeeds when it succeeds on every element. -/
theorem exists_mapM_eq_ok {f : α → Except ε β} {values : List α}
    (each : ∀ value ∈ values, ∃ result, f value = .ok result) :
    ∃ results, values.mapM f = .ok results := by
  induction values with
  | nil => exact ⟨[], rfl⟩
  | cons head tail ih =>
      obtain ⟨first, firstOk⟩ := each head (by simp)
      obtain ⟨rest, restOk⟩ := ih fun value member => each value (by simp [member])
      exact ⟨first :: rest, mapM_eq_ok_cons.mpr ⟨first, rest, firstOk, restOk, rfl⟩⟩

/-- The first part of a pass in two parts. -/
theorem exists_mapM_first {γ : Type} {f : α → Except ε β} {g : α → β → Except ε γ}
    {values : List α} {results : List γ}
    (success : values.mapM (fun value => f value >>= g value) = .ok results) :
    ∃ parts, values.mapM f = .ok parts := by
  induction values generalizing results with
  | nil => exact ⟨[], rfl⟩
  | cons head tail ih =>
      obtain ⟨_, rest, firstOk, restOk, _⟩ := mapM_eq_ok_cons.mp success
      obtain ⟨part, partOk, _⟩ := bind_eq_ok.mp firstOk
      obtain ⟨parts, partsOk⟩ := ih restOk
      exact ⟨part :: parts, mapM_eq_ok_cons.mpr ⟨part, parts, partOk, partsOk, rfl⟩⟩

/-- A pass that cannot fail is a map. -/
theorem mapM_eq_map {f : α → Except ε β} {g : α → β} {values : List α}
    (each : ∀ value ∈ values, f value = .ok (g value)) :
    values.mapM f = .ok (values.map g) := by
  induction values with
  | nil => rfl
  | cons head tail ih =>
      exact mapM_eq_ok_cons.mpr ⟨_, _, each head (by simp),
        ih fun value member => each value (by simp [member]), rfl⟩

/-- A pass that succeeds in one order succeeds in every order, with the same results. -/
theorem mapM_perm {f : α → Except ε β} {values others : List α} (perm : values.Perm others)
    {results : List β} (success : values.mapM f = .ok results) :
    ∃ reordered, others.mapM f = .ok reordered ∧ reordered.Perm results := by
  induction perm generalizing results with
  | nil => exact ⟨results, success, .refl _⟩
  | cons head _ ih =>
      obtain ⟨first, rest, firstOk, restOk, rfl⟩ := mapM_eq_ok_cons.mp success
      obtain ⟨reordered, reorderedOk, restPerm⟩ := ih restOk
      exact ⟨first :: reordered, mapM_eq_ok_cons.mpr ⟨first, reordered, firstOk, reorderedOk, rfl⟩,
        restPerm.cons first⟩
  | swap =>
      obtain ⟨second, _, secondOk, tailOk, rfl⟩ := mapM_eq_ok_cons.mp success
      obtain ⟨first, rest, firstOk, restOk, rfl⟩ := mapM_eq_ok_cons.mp tailOk
      refine ⟨first :: second :: rest, mapM_eq_ok_cons.mpr ⟨first, _, firstOk, ?_, rfl⟩,
        .swap second first rest⟩
      exact mapM_eq_ok_cons.mpr ⟨second, rest, secondOk, restOk, rfl⟩
  | trans _ _ ihFirst ihSecond =>
      obtain ⟨between, betweenOk, betweenPerm⟩ := ihFirst success
      obtain ⟨reordered, reorderedOk, reorderedPerm⟩ := ihSecond betweenOk
      exact ⟨reordered, reorderedOk, reorderedPerm.trans betweenPerm⟩

section Raising

variable {p : ε → Prop} {x : Except ε α}

/-- Whatever is raised has the property. -/
def OnlyRaises (p : ε → Prop) (x : Except ε α) : Prop := ∀ e, x = .error e → p e

@[simp] theorem onlyRaises_ok (value : α) : OnlyRaises p (.ok value) := by
  intro e raised
  cases raised

@[simp] theorem onlyRaises_error {e : ε} : OnlyRaises (α := α) p (.error e) ↔ p e := by
  constructor
  · exact fun only => only e rfl
  · intro holds other raised
    cases raised
    exact holds

/-- What comes after an error is not reached. -/
theorem onlyRaises_bind {f : α → Except ε β} :
    OnlyRaises p (x >>= f) ↔ OnlyRaises p x ∧ ∀ value, x = .ok value → OnlyRaises p (f value) := by
  cases x with
  | error e => simp [bind, Except.bind]
  | ok value => simp [bind, Except.bind]

@[simp] theorem onlyRaises_raiseIf {c : Prop} [Decidable c] {e : ε} :
    OnlyRaises p (raiseIf c e) ↔ (c → p e) := by
  unfold raiseIf
  split <;> simp_all

@[simp] theorem onlyRaises_orRaise {e : ε} {found : Option α} :
    OnlyRaises p (orRaise e found) ↔ (found = none → p e) := by
  cases found <;> simp [orRaise]

/-- A pass over elements that raise nothing of the kind. -/
theorem onlyRaises_mapM {f : α → Except ε β} {values : List α}
    (never : ∀ value e, f value = .error e → ¬ p e) :
    OnlyRaises p (values.mapM f) ↔ ∀ value ∈ values, OnlyRaises p (f value) := by
  induction values with
  | nil => simp [pure, Except.pure]
  | cons head tail ih =>
      rw [List.mapM_cons, onlyRaises_bind, List.forall_mem_cons]
      refine and_congr_right fun headOnly => ?_
      cases first : f head with
      | error e => exact absurd (headOnly e first) (never head e first)
      | ok result => simp [onlyRaises_bind, ih, pure, Except.pure]

end Raising

theorem forall₂_exists_left {R : α → β → Prop} {values : List α} {results : List β} {result : β}
    (related : List.Forall₂ R values results) (member : result ∈ results) :
    ∃ value ∈ values, R value result := by
  induction related with
  | nil => cases member
  | @cons value first values results head tail ih =>
      rcases List.mem_cons.mp member with rfl | inTail
      · exact ⟨value, List.mem_cons_self, head⟩
      · obtain ⟨found, foundMember, relation⟩ := ih inTail
        exact ⟨found, List.mem_cons_of_mem _ foundMember, relation⟩

/-- Results of one shape come from a list of what fills it. -/
theorem forall₂_exists_map {γ : Type} {R : α → β → Prop} {f : β → γ} {values : List α}
    {results : List γ}
    (related : List.Forall₂ (fun value result => ∃ inner, R value inner ∧ result = f inner) values
      results) : ∃ inners, List.Forall₂ R values inners ∧ results = inners.map f := by
  induction related with
  | nil => exact ⟨[], .nil, rfl⟩
  | cons head _ ih =>
      obtain ⟨inner, holds, rfl⟩ := head
      obtain ⟨inners, rest, rfl⟩ := ih
      exact ⟨inner :: inners, .cons holds rest, rfl⟩

theorem forall₂_map_eq {γ : Type} {R : α → β → Prop} {f : α → γ} {g : β → γ} {values : List α}
    {results : List β} (related : List.Forall₂ R values results)
    (same : ∀ value ∈ values, ∀ result, R value result → g result = f value) :
    results.map g = values.map f := by
  induction related with
  | nil => rfl
  | @cons value result values results head tail ih =>
      rw [List.map_cons, List.map_cons, same value List.mem_cons_self result head,
        ih fun other member => same other (List.mem_cons_of_mem _ member)]

end Inversion

section Sweep

variable {κ σ ε ν η : Type}

/-- A loop over one open transaction: a visit that fails rolls the working state
back to the last commit, and the loop goes on. A fatal failure ends the loop, and
nothing of it is committed. -/
def sweep (advance : κ → σ → Except ε σ) (fatal : ε → Bool) (base : σ) : List κ → σ → σ
  | [], work => work
  | key :: keys, work =>
      match advance key work with
      | .ok next => sweep advance fatal base keys next
      | .error e => if fatal e then base else sweep advance fatal base keys base

/-- Whether a fatal failure ends the loop. -/
def sweepBreaks (advance : κ → σ → Except ε σ) (fatal : ε → Bool) (base : σ) : List κ → σ → Bool
  | [], _ => false
  | key :: keys, work =>
      match advance key work with
      | .ok next => sweepBreaks advance fatal base keys next
      | .error e => fatal e || sweepBreaks advance fatal base keys base

/-- What every successful visit keeps is kept by the loop, also where it rolls back. -/
theorem sweep_induction {motive : σ → Prop} {advance : κ → σ → Except ε σ} {fatal : ε → Bool}
    {base work : σ} {keys : List κ} (committed : motive base) (start : motive work)
    (step : ∀ key ∈ keys, ∀ state next, motive state → advance key state = .ok next → motive next) :
    motive (sweep advance fatal base keys work) := by
  induction keys generalizing work with
  | nil => exact start
  | cons key keys ih =>
      have rest := fun other (member : other ∈ keys) => step other (List.mem_cons_of_mem _ member)
      unfold sweep
      split
      · rename_i next success
        exact ih (step key (by simp) work next start success) rest
      · split
        · exact committed
        · exact ih committed rest

section Journal

variable {ω : Type} {visit : κ → σ → Except ε (List ω)} {apply : σ → List ω → Except ε σ}
  {fatal : ε → Bool}

/-- The writes that a sweep commits: those since the last rollback. -/
def sweepWrites (visit : κ → σ → Except ε (List ω)) (apply : σ → List ω → Except ε σ)
    (fatal : ε → Bool) (base : σ) : List κ → σ → List ω → List ω
  | [], _, held => held
  | key :: keys, work, held =>
      match visit key work with
      | .error e => if fatal e then [] else sweepWrites visit apply fatal base keys base []
      | .ok writes =>
          match apply work writes with
          | .error e => if fatal e then [] else sweepWrites visit apply fatal base keys base []
          | .ok next => sweepWrites visit apply fatal base keys next (held ++ writes)

/-- Applied to the last commit, they are what the sweep reaches. -/
theorem apply_sweepWrites (nothing : ∀ state, apply state [] = .ok state)
    (append : ∀ state first second,
      apply state (first ++ second) = apply state first >>= fun next => apply next second)
    {base work : σ} {keys : List κ} {held : List ω} (reached : apply base held = .ok work) :
    apply base (sweepWrites visit apply fatal base keys work held) =
      .ok (sweep (fun key state => visit key state >>= apply state) fatal base keys work) := by
  induction keys generalizing work held with
  | nil => exact reached
  | cons key keys ih =>
      have rolledBack : ∀ e : ε,
          apply base (if fatal e then [] else sweepWrites visit apply fatal base keys base []) =
            .ok (if fatal e then base
              else sweep (fun key state => visit key state >>= apply state) fatal base keys
                base) := by
        intro e
        split
        · exact nothing base
        · exact ih (nothing base)
      unfold sweepWrites sweep
      cases visited : visit key work with
      | error e => exact rolledBack e
      | ok writes =>
          simp only [ok_bind]
          cases applied : apply work writes with
          | error e => exact rolledBack e
          | ok next =>
              refine ih ?_
              rw [append, reached, ok_bind, applied]

/-- What every visit establishes of its writes holds of all that the sweep commits. -/
theorem sweepWrites_forall {motive : σ → Prop} {P : ω → Prop} {base work : σ} {keys : List κ}
    {held : List ω} (committed : motive base) (start : motive work) (already : ∀ w ∈ held, P w)
    (step : ∀ key state writes, motive state → visit key state = .ok writes →
      (∀ w ∈ writes, P w) ∧ ∀ next, apply state writes = .ok next → motive next) :
    ∀ w ∈ sweepWrites visit apply fatal base keys work held, P w := by
  induction keys generalizing work held with
  | nil => exact already
  | cons key keys ih =>
      have rolledBack : ∀ e : ε,
          ∀ w ∈ if fatal e then [] else sweepWrites visit apply fatal base keys base [], P w := by
        intro e
        split
        · exact List.forall_mem_nil P
        · exact ih committed (List.forall_mem_nil P)
      unfold sweepWrites
      split
      · exact rolledBack _
      · rename_i writes visited
        obtain ⟨fresh, kept⟩ := step key work writes start visited
        split
        · exact rolledBack _
        · rename_i next applied
          refine ih (kept next applied) fun w member => ?_
          exact (List.mem_append.mp member).elim (already w) (fresh w)

end Journal

def Succeeds (advance : κ → σ → Except ε σ) (key : κ) (state : σ) : Prop :=
  ∃ next, advance key state = .ok next

/-- The visit ends in a fatal failure. -/
def Breaks (advance : κ → σ → Except ε σ) (fatal : ε → Bool) (key : κ) (state : σ) : Prop :=
  ∃ e, advance key state = .error e ∧ fatal e = true

theorem Breaks.fails {advance : κ → σ → Except ε σ} {fatal : ε → Bool} {key : κ} {state : σ}
    (breaks : Breaks advance fatal key state) : ¬ Succeeds advance key state := by
  rintro ⟨next, success⟩
  obtain ⟨e, failure, _⟩ := breaks
  rw [success] at failure
  cases failure

/-- A visit in two steps breaks in the first or in the second. -/
theorem breaks_andThen {first second : κ → σ → Except ε σ} {fatal : ε → Bool} {key : κ}
    {state : σ} :
    Breaks (fun key state => first key state >>= second key) fatal key state ↔
      Breaks first fatal key state ∨
        ∃ middle, first key state = .ok middle ∧ Breaks second fatal key middle := by
  unfold Breaks
  cases visit : first key state with
  | error e => simp [bind, Except.bind, visit]
  | ok middle => simp [bind, Except.bind, visit]

/-- No visit of the loop fails. -/
def Unfailing (advance : κ → σ → Except ε σ) : List κ → σ → Prop
  | [], _ => True
  | key :: keys, work => ∃ next, advance key work = .ok next ∧ Unfailing advance keys next

/-- Each key has its own part of the state, and every visit reads a common part
that no visit writes. -/
structure Confined (advance : κ → σ → Except ε σ) (fatal : ε → Bool) (view : κ → σ → ν)
    (common : σ → η) : Prop where
  common_same : ∀ {key state next}, advance key state = .ok next → common next = common state
  others_same : ∀ {key other state next}, advance key state = .ok next → other ≠ key →
    view other next = view other state
  determined : ∀ {key state twin next}, common state = common twin →
    view key state = view key twin → advance key state = .ok next →
    ∃ result, advance key twin = .ok result ∧ view key result = view key next
  breaks_same : ∀ {key state twin}, common state = common twin →
    view key state = view key twin → Breaks advance fatal key state → Breaks advance fatal key twin

theorem Confined.andThen {first second : κ → σ → Except ε σ} {fatal : ε → Bool}
    {view : κ → σ → ν} {common : σ → η} (one : Confined first fatal view common)
    (two : Confined second fatal view common) :
    Confined (fun key state => first key state >>= second key) fatal view common where
  common_same := by
    intro key state next success
    obtain ⟨middle, firstOk, secondOk⟩ := bind_eq_ok.mp success
    exact (two.common_same secondOk).trans (one.common_same firstOk)
  others_same := by
    intro key other state next success differs
    obtain ⟨middle, firstOk, secondOk⟩ := bind_eq_ok.mp success
    exact (two.others_same secondOk differs).trans (one.others_same firstOk differs)
  determined := by
    intro key state twin next sameCommon sameView success
    obtain ⟨middle, firstOk, secondOk⟩ := bind_eq_ok.mp success
    obtain ⟨twinMiddle, twinFirst, middleView⟩ := one.determined sameCommon sameView firstOk
    have middleCommon : common middle = common twinMiddle :=
      (one.common_same firstOk).trans (sameCommon.trans (one.common_same twinFirst).symm)
    obtain ⟨result, twinSecond, resultView⟩ :=
      two.determined middleCommon middleView.symm secondOk
    exact ⟨result, bind_eq_ok.mpr ⟨twinMiddle, twinFirst, twinSecond⟩, resultView⟩
  breaks_same := by
    intro key state twin sameCommon sameView breaks
    rw [breaks_andThen] at breaks ⊢
    rcases breaks with breaks | ⟨middle, firstOk, breaks⟩
    · exact .inl (one.breaks_same sameCommon sameView breaks)
    · obtain ⟨twinMiddle, twinFirst, middleView⟩ := one.determined sameCommon sameView firstOk
      have middleCommon : common middle = common twinMiddle :=
        (one.common_same firstOk).trans (sameCommon.trans (one.common_same twinFirst).symm)
      exact .inr ⟨twinMiddle, twinFirst, two.breaks_same middleCommon middleView.symm breaks⟩

/-- A visit that succeeds can be seen. -/
structure Local (advance : κ → σ → Except ε σ) (fatal : ε → Bool) (view : κ → σ → ν)
    (common : σ → η) : Prop extends Confined advance fatal view common where
  progress : ∀ {key state next}, advance key state = .ok next → view key next ≠ view key state

/-- What the loop leaves of a key that succeeds alone, and of one that fails alone. -/
def Isolated (advance : κ → σ → Except ε σ) (view : κ → σ → ν) (base : σ) (keys : List κ)
    (final : σ) : Prop :=
  ∀ key ∈ keys,
    (∀ next, advance key base = .ok next → view key final = view key next) ∧
    (¬ Succeeds advance key base → view key final = view key base)

/-- What an earlier visit must not do to a later one: a success is lost where the later
visit fails, and a fatal failure keeps the later visit from being made. -/
def Spares (advance : κ → σ → Except ε σ) (fatal : ε → Bool) (base : σ) (earlier later : κ) :
    Prop :=
  (Succeeds advance earlier base → Succeeds advance later base) ∧
    (Breaks advance fatal earlier base → ¬ Succeeds advance later base)

variable {advance : κ → σ → Except ε σ} {fatal : ε → Bool} {view : κ → σ → ν} {common : σ → η}
  {base : σ}

namespace Local

theorem succeeds_iff (rules : Local advance fatal view common) {key : κ} {state twin : σ}
    (sameCommon : common state = common twin) (sameView : view key state = view key twin) :
    Succeeds advance key state ↔ Succeeds advance key twin := by
  constructor
  · rintro ⟨next, success⟩
    obtain ⟨result, twinSuccess, _⟩ := rules.determined sameCommon sameView success
    exact ⟨result, twinSuccess⟩
  · rintro ⟨next, success⟩
    obtain ⟨result, twinSuccess, _⟩ := rules.determined sameCommon.symm sameView.symm success
    exact ⟨result, twinSuccess⟩

theorem breaks_iff (rules : Local advance fatal view common) {key : κ} {state twin : σ}
    (sameCommon : common state = common twin) (sameView : view key state = view key twin) :
    Breaks advance fatal key state ↔ Breaks advance fatal key twin :=
  ⟨rules.breaks_same sameCommon sameView, rules.breaks_same sameCommon.symm sameView.symm⟩

/-- What has not been visited yet is as it was. -/
theorem stays_fresh (rules : Local advance fatal view common) {key : κ} {keys : List κ}
    {work next : σ} (absent : key ∉ keys)
    (fresh : ∀ other ∈ key :: keys, view other work = view other base)
    (success : advance key work = .ok next) :
    ∀ other ∈ keys, view other next = view other base := by
  intro other member
  have notHead : other ≠ key := fun eq => absent (eq ▸ member)
  exact (rules.others_same success notHead).trans (fresh other (List.mem_cons_of_mem _ member))

/-- A loop in which nothing fails is one whose visits all succeed alone. -/
theorem unfailing_iff (rules : Local advance fatal view common) {keys : List κ} {work : σ}
    (nodup : keys.Nodup) (sameCommon : common work = common base)
    (fresh : ∀ key ∈ keys, view key work = view key base) :
    Unfailing advance keys work ↔ ∀ key ∈ keys, Succeeds advance key base := by
  induction keys generalizing work with
  | nil => simp [Unfailing]
  | cons key keys ih =>
      rw [List.nodup_cons] at nodup
      have head := rules.succeeds_iff sameCommon (fresh key (by simp))
      have tail : ∀ next, advance key work = .ok next →
          (Unfailing advance keys next ↔ ∀ other ∈ keys, Succeeds advance other base) :=
        fun next success => ih nodup.2 ((rules.common_same success).trans sameCommon)
          (rules.stays_fresh nodup.1 fresh success)
      rw [List.forall_mem_cons]
      constructor
      · rintro ⟨next, success, rest⟩
        exact ⟨head.mp ⟨next, success⟩, (tail next success).mp rest⟩
      · rintro ⟨first, rest⟩
        obtain ⟨next, success⟩ := head.mpr first
        exact ⟨next, success, (tail next success).mpr rest⟩

/-- A loop is ended by a fatal failure when one of its keys has one alone. -/
theorem sweepBreaks_iff (rules : Local advance fatal view common) {keys : List κ} {work : σ}
    (nodup : keys.Nodup) (sameCommon : common work = common base)
    (fresh : ∀ key ∈ keys, view key work = view key base) :
    sweepBreaks advance fatal base keys work = true ↔
      ∃ key ∈ keys, Breaks advance fatal key base := by
  induction keys generalizing work with
  | nil => simp [sweepBreaks]
  | cons key keys ih =>
      rw [List.nodup_cons] at nodup
      have head := rules.breaks_iff sameCommon (fresh key (by simp))
      rw [List.exists_mem_cons_iff, ← head, Breaks, sweepBreaks]
      cases visit : advance key work with
      | ok next =>
          simpa using ih nodup.2 ((rules.common_same visit).trans sameCommon)
            (rules.stays_fresh nodup.1 fresh visit)
      | error e => simp [ih nodup.2 rfl fun _ _ => rfl]

/-- A key that is not visited keeps its committed view. -/
theorem sweep_frame (rules : Local advance fatal view common) {keys : List κ} {work : σ}
    {other : κ} (absent : other ∉ keys) (same : view other work = view other base) :
    view other (sweep advance fatal base keys work) = view other base := by
  induction keys generalizing work with
  | nil => exact same
  | cons key keys ih =>
      have notHead : other ≠ key := fun eq => absent (eq ▸ List.mem_cons_self)
      have notTail : other ∉ keys := fun member => absent (List.mem_cons_of_mem _ member)
      unfold sweep
      split
      · rename_i next success
        exact ih notTail ((rules.others_same success notHead).trans same)
      · split
        · rfl
        · exact ih notTail rfl

/-- While nothing fails, every visited key ends as if it had been alone. -/
theorem sweep_all_succeed (rules : Local advance fatal view common) {keys : List κ} {work : σ}
    (nodup : keys.Nodup) (sameCommon : common work = common base)
    (fresh : ∀ key ∈ keys, view key work = view key base)
    (succeed : ∀ key ∈ keys, Succeeds advance key base) :
    (∀ key ∈ keys, ∀ next, advance key base = .ok next →
      view key (sweep advance fatal base keys work) = view key next) ∧
    (∀ other, other ∉ keys →
      view other (sweep advance fatal base keys work) = view other work) := by
  induction keys generalizing work with
  | nil => simp [sweep]
  | cons key keys ih =>
      rw [List.nodup_cons] at nodup
      obtain ⟨alone, aloneOk⟩ := succeed key (by simp)
      obtain ⟨next, success, sameNext⟩ := rules.determined sameCommon.symm
        (fresh key (by simp)).symm aloneOk
      have untouched := rules.stays_fresh nodup.1 fresh success
      obtain ⟨visited, frame⟩ := ih nodup.2 ((rules.common_same success).trans sameCommon) untouched
        fun other member => succeed other (by simp [member])
      have unfolded : sweep advance fatal base (key :: keys) work =
          sweep advance fatal base keys next := by
        simp only [sweep, success]
      rw [unfolded]
      constructor
      · intro visitedKey member result resultOk
        rcases List.mem_cons.mp member with rfl | member
        · rw [aloneOk] at resultOk
          cases resultOk
          rw [frame _ nodup.1, sameNext]
        · exact visited visitedKey member result resultOk
      · intro other absent
        have notHead : other ≠ key := fun eq => absent (eq ▸ List.mem_cons_self)
        rw [frame other fun member => absent (List.mem_cons_of_mem _ member)]
        exact rules.others_same success notHead

/-- One failing visit takes every earlier visit of the loop with it. -/
theorem sweep_rolled_back (rules : Local advance fatal view common) {keys : List κ} {work : σ}
    {other failing : κ} (nodup : keys.Nodup) (sameCommon : common work = common base)
    (fresh : ∀ key ∈ keys, view key work = view key base) (member : failing ∈ keys)
    (fails : ¬ Succeeds advance failing base) (absent : other ∉ keys) :
    view other (sweep advance fatal base keys work) = view other base := by
  induction keys generalizing work with
  | nil => cases member
  | cons key keys ih =>
      rw [List.nodup_cons] at nodup
      have notTail : other ∉ keys := fun member => absent (List.mem_cons_of_mem _ member)
      cases visit : advance key work with
      | error e =>
          simp only [sweep, visit]
          split
          · rfl
          · exact rules.sweep_frame notTail rfl
      | ok next =>
          simp only [sweep, visit]
          have notFailing : failing ≠ key := by
            rintro rfl
            exact fails ((rules.succeeds_iff sameCommon (fresh failing (by simp))).mp ⟨next, visit⟩)
          have inTail : failing ∈ keys := by simpa [notFailing] using member
          exact ih nodup.2 ((rules.common_same visit).trans sameCommon)
            (rules.stays_fresh nodup.1 fresh visit) inTail notTail

theorem isolated_of_pairwise (rules : Local advance fatal view common) {keys : List κ}
    (nodup : keys.Nodup) (ordered : keys.Pairwise (Spares advance fatal base)) :
    Isolated advance view base keys (sweep advance fatal base keys base) := by
  induction keys with
  | nil => simp [Isolated]
  | cons key keys ih =>
      have wholeNodup := nodup
      rw [List.nodup_cons] at nodup
      rw [List.pairwise_cons] at ordered
      cases visit : advance key base with
      | ok next =>
          have succeed : ∀ visited ∈ key :: keys, Succeeds advance visited base := by
            intro visited member
            rcases List.mem_cons.mp member with rfl | member
            · exact ⟨next, visit⟩
            · exact (ordered.1 visited member).1 ⟨next, visit⟩
          have reached := (rules.sweep_all_succeed wholeNodup rfl (fun _ _ => rfl) succeed).1
          exact fun visited member =>
            ⟨reached visited member, fun fails => absurd (succeed visited member) fails⟩
      | error e =>
          have fails : ¬ Succeeds advance key base := by
            rintro ⟨next, success⟩
            rw [visit] at success
            cases success
          by_cases breaks : fatal e = true
          · -- Nothing is committed, and nothing after `key` would have succeeded.
            have unfolded : sweep advance fatal base (key :: keys) base = base := by
              simp only [sweep, visit, breaks, if_true]
            rw [unfolded]
            intro visited member
            refine ⟨fun next success => ?_, fun _ => rfl⟩
            rcases List.mem_cons.mp member with rfl | member
            · exact absurd ⟨next, success⟩ fails
            · exact absurd ⟨next, success⟩ ((ordered.1 visited member).2 ⟨e, visit, breaks⟩)
          · have unfolded : sweep advance fatal base (key :: keys) base =
                sweep advance fatal base keys base := by
              simp only [sweep, visit, if_neg breaks]
            rw [unfolded]
            intro visited member
            rcases List.mem_cons.mp member with rfl | member
            · exact ⟨fun next success => absurd ⟨next, success⟩ fails,
                fun _ => rules.sweep_frame nodup.1 rfl⟩
            · exact ih nodup.2 ordered.2 visited member

theorem pairwise_of_reached (rules : Local advance fatal view common) {keys : List κ} {work : σ}
    (nodup : keys.Nodup) (sameCommon : common work = common base)
    (fresh : ∀ key ∈ keys, view key work = view key base)
    (reached : ∀ key ∈ keys, ∀ next, advance key base = .ok next →
      view key (sweep advance fatal base keys work) = view key next) :
    keys.Pairwise (Spares advance fatal base) := by
  induction keys generalizing work with
  | nil => exact .nil
  | cons key keys ih =>
      rw [List.nodup_cons] at nodup
      rw [List.pairwise_cons]
      have tailReached := fun other (member : other ∈ keys) => reached other (by simp [member])
      cases visit : advance key work with
      | error e =>
          have fails : ¬ Succeeds advance key base := by
            rw [← rules.succeeds_iff sameCommon (fresh key (by simp))]
            rintro ⟨next, success⟩
            rw [visit] at success
            cases success
          by_cases breaks : fatal e = true
          · -- The loop ends here, so nothing that comes later can succeed alone.
            simp only [sweep, visit, breaks, if_true] at tailReached
            have none_succeeds : ∀ other ∈ keys, ¬ Succeeds advance other base := by
              rintro other member ⟨next, success⟩
              exact rules.progress success (tailReached other member next success).symm
            refine ⟨fun later member => ⟨fun success => absurd success fails,
              fun _ => none_succeeds later member⟩, ?_⟩
            exact List.pairwise_of_forall_mem_list fun earlier earlierMember later laterMember =>
              ⟨fun success => absurd success (none_succeeds earlier earlierMember),
                fun _ => none_succeeds later laterMember⟩
          · have notBreaks : ¬ Breaks advance fatal key base := by
              rw [← rules.breaks_iff sameCommon (fresh key (by simp))]
              rintro ⟨other, failure, isFatal⟩
              rw [visit] at failure
              cases failure
              exact breaks isFatal
            simp only [sweep, visit, if_neg breaks] at tailReached
            exact ⟨fun _ _ => ⟨fun success => absurd success fails,
              fun isBroken => absurd isBroken notBreaks⟩,
              ih nodup.2 rfl (fun _ _ => rfl) tailReached⟩
      | ok next =>
          have untouched := rules.stays_fresh nodup.1 fresh visit
          have nextCommon := (rules.common_same visit).trans sameCommon
          have succeeds : Succeeds advance key base :=
            (rules.succeeds_iff sameCommon (fresh key (by simp))).mp ⟨next, visit⟩
          simp only [sweep, visit] at tailReached
          refine ⟨fun later member => ⟨?_, fun breaks => absurd succeeds breaks.fails⟩,
            ih nodup.2 nextCommon untouched tailReached⟩
          rintro ⟨alone, aloneOk⟩
          by_contra fails
          -- The failure of `later` discards what the visit of `key` had reached.
          have lost := rules.sweep_rolled_back nodup.2 nextCommon untouched member fails nodup.1
          have kept := reached key (by simp) alone aloneOk
          simp only [sweep, visit] at kept
          exact rules.progress aloneOk (kept.symm.trans lost)

/-- The loop isolates its keys exactly when no success is visited before a failure, nor
after a fatal one. -/
theorem isolated_iff (rules : Local advance fatal view common) {keys : List κ}
    (nodup : keys.Nodup) :
    Isolated advance view base keys (sweep advance fatal base keys base) ↔
      keys.Pairwise (Spares advance fatal base) :=
  ⟨fun isolated => rules.pairwise_of_reached nodup rfl (fun _ _ => rfl)
      fun key member => (isolated key member).1,
    rules.isolated_of_pairwise nodup⟩

/-- A loop in which nothing happens isolates its keys when none of them would succeed. -/
theorem isolated_refl_iff (rules : Local advance fatal view common) {keys : List κ} :
    Isolated advance view base keys base ↔ ∀ key ∈ keys, ¬ Succeeds advance key base := by
  constructor
  · rintro isolated key member ⟨next, success⟩
    exact rules.progress success ((isolated key member).1 next success).symm
  · exact fun never key member =>
      ⟨fun next success => absurd ⟨next, success⟩ (never key member), fun _ => rfl⟩

end Local

end Sweep

end FundPolymarket
