import FundPolymarket.KisClient

set_option autoImplicit false

/- Where a client takes its token from: its memory, the cache file, or the token endpoint. -/
namespace FundPolymarket.Kis

open Python (InCalendar Json Unicode)
open Python.Json (field)

section Token

namespace KisClient

variable {client : KisClient} {clock : Clock} {file : CacheFile} {now : Time} {token : Json}

/-- The token in memory is good for more than the skew. -/
def HasFresh (client : KisClient) (now : Time) : Prop :=
  client.token.truthy = true ∧
    ∃ expiresAt, client.tokenExpiresAt = some expiresAt ∧ now < expiresAt - tokenSkew

/-- The skew before the expiry of the token in memory is in the calendar. -/
def MemorySafe (client : KisClient) : Prop :=
  client.token.truthy = true → ∀ expiresAt, client.tokenExpiresAt = some expiresAt →
    InCalendar (expiresAt - tokenSkew)

/-- The loader takes this token from the file. -/
def Loads (client : KisClient) (clock : Clock) (file : CacheFile) (token : Json)
    (expiresAt : Time) : Prop :=
  client.hasCache = true ∧ file = .entry (.str client.env.text) token expiresAt ∧
    InCalendar (expiresAt - tokenSkew) ∧ clock.loaded < expiresAt - tokenSkew

/-- The file cannot be looked up. -/
def Denied (client : KisClient) (file : CacheFile) : Prop :=
  client.hasCache = true ∧ file = .denied

/-- The file has a token that the access returns. -/
def FileGives (client : KisClient) (clock : Clock) (file : CacheFile) (token : Json) : Prop :=
  token.truthy = true ∧
    ∃ expiresAt, client.Loads clock file token expiresAt ∧ clock.now < expiresAt - tokenSkew

theorem FileGives.loads (gives : client.FileGives clock file token) :
    ∃ expiresAt, client.Loads clock file token expiresAt :=
  gives.2.imp fun _ facts => facts.1

theorem FileGives.unique {other : Json} (gives : client.FileGives clock file token)
    (also : client.FileGives clock file other) : token = other := by
  obtain ⟨expiresAt, loads⟩ := gives.loads
  obtain ⟨otherExpiry, otherLoads⟩ := also.loads
  have entry := loads.2.1.symm.trans otherLoads.2.1
  cases entry
  rfl

theorem tokenIsFresh_eq_ok {fresh : Bool} :
    client.tokenIsFresh now = .ok fresh ↔
      client.MemorySafe ∧ (fresh = true ↔ client.HasFresh now) := by
  unfold tokenIsFresh MemorySafe HasFresh
  split
  · rename_i given
    cases client.tokenExpiresAt with
    | some expiresAt =>
        simp only [given, map_eq_ok, Python.plus_eq_ok, ← sub_eq_add_neg, true_and,
          forall_const, Option.some.injEq, forall_eq', exists_eq_left']
        constructor
        · rintro ⟨stale, ⟨within, rfl⟩, rfl⟩
          exact ⟨within, by simp⟩
        · rintro ⟨within, same⟩
          exact ⟨_, ⟨within, rfl⟩, Bool.eq_iff_iff.mpr (by simp [same])⟩
    | none => cases fresh <;> simp
  · rename_i absent
    cases fresh <;> simp [absent]

theorem tokenIsFresh_of_safe (safe : client.MemorySafe) (e : Python.Exception) :
    client.tokenIsFresh now ≠ .error e := by
  classical
  have done := tokenIsFresh_eq_ok.mpr ⟨safe, @decide_eq_true_iff (client.HasFresh now) _⟩
  rw [done]
  exact fun same => by cases same

theorem loadCachedToken_of_loads {expiresAt : Time}
    (loads : client.Loads clock file token expiresAt) :
    client.loadCachedToken clock file =
      .ok { client with token := token, tokenExpiresAt := some expiresAt } := by
  obtain ⟨cached, rfl, within, fresh⟩ := loads
  have stale : Python.plus expiresAt (-tokenSkew) = .ok (expiresAt - tokenSkew) :=
    Python.plus_eq_ok.mpr ⟨within, rfl⟩
  have own : (Json.str client.env.text).isText client.env.text = true :=
    Python.Json.isText_iff.mpr rfl
  simp only [loadCachedToken, cached, if_true, own, stale, if_pos fresh]

/-- Where nothing is loaded the client stays as it is, unless the file cannot be looked up. -/
theorem loadCachedToken_of_not_loads
    (none : ∀ token expiresAt, ¬ client.Loads clock file token expiresAt)
    (allowed : ¬ client.Denied file) : client.loadCachedToken clock file = .ok client := by
  unfold loadCachedToken
  split
  · rename_i cached
    cases file with
    | missing => rfl
    | broken => rfl
    | denied => exact absurd ⟨cached, rfl⟩ allowed
    | entry env token expiresAt =>
        dsimp only
        split
        · rename_i own
          rw [Python.Json.isText_iff] at own
          cases stale : Python.plus expiresAt (-tokenSkew) with
          | error e => rfl
          | ok until_ =>
              obtain ⟨within, rfl⟩ := Python.plus_eq_ok.mp stale
              exact if_neg fun fresh => none token expiresAt ⟨cached, own ▸ rfl, within, fresh⟩
        · rfl
  · rfl

theorem loadCachedToken_ne_error (allowed : ¬ client.Denied file) (e : Python.Exception) :
    client.loadCachedToken clock file ≠ .error e := by
  by_cases loads : ∃ token expiresAt, client.Loads clock file token expiresAt
  · obtain ⟨token, expiresAt, loads⟩ := loads
    simp [loadCachedToken_of_loads loads]
  · push Not at loads
    simp [loadCachedToken_of_not_loads loads allowed]

/-- What was loaded is fresh where the file gives it. -/
theorem loaded_hasFresh {loaded : KisClient} (load : client.loadCachedToken clock file = .ok loaded)
    (allowed : ¬ client.Denied file) (stale : ¬ client.HasFresh clock.now) :
    loaded.HasFresh clock.now ↔ client.FileGives clock file loaded.token := by
  by_cases loads : ∃ token expiresAt, client.Loads clock file token expiresAt
  · obtain ⟨token, expiresAt, loads⟩ := loads
    have same := (loadCachedToken_of_loads loads).symm.trans load
    cases same
    constructor
    · rintro ⟨given, other, same, inTime⟩
      cases same
      exact ⟨given, expiresAt, loads, inTime⟩
    · rintro ⟨given, other, ⟨_, file, _, _⟩, inTime⟩
      have entry := loads.2.1.symm.trans file
      cases entry
      exact ⟨given, expiresAt, rfl, inTime⟩
  · push Not at loads
    have same := (loadCachedToken_of_not_loads loads allowed).symm.trans load
    cases same
    exact ⟨fun fresh => absurd fresh stale,
      fun ⟨_, expiresAt, loaded, _⟩ => absurd loaded (loads _ expiresAt)⟩

theorem loaded_memorySafe {loaded : KisClient}
    (load : client.loadCachedToken clock file = .ok loaded) (allowed : ¬ client.Denied file)
    (safe : client.MemorySafe) : loaded.MemorySafe := by
  by_cases loads : ∃ token expiresAt, client.Loads clock file token expiresAt
  · obtain ⟨token, expiresAt, loads⟩ := loads
    have same := (loadCachedToken_of_loads loads).symm.trans load
    cases same
    intro _ other same
    cases same
    exact loads.2.2.1
  · push Not at loads
    have same := (loadCachedToken_of_not_loads loads allowed).symm.trans load
    cases same
    exact safe

variable [Unicode] {answer : Answer} {store : StoreOutcome}

/-- What one access to the token can come to. -/
inductive Access (client : KisClient) (clock : Clock) (file : CacheFile) (answer : Answer)
    (store : StoreOutcome) : TokenRead → Prop where
  | overflow (outside : ¬ client.MemorySafe) {e : Python.Exception} :
      Access client clock file answer store ⟨.error (.python e), client, file, .none⟩
  | memory (safe : client.MemorySafe) (fresh : client.HasFresh clock.now) :
      Access client clock file answer store ⟨.ok client.token, client, file, .none⟩
  | denied (safe : client.MemorySafe) (stale : ¬ client.HasFresh clock.now)
      (denied : client.Denied file) {e : Python.Exception} :
      Access client clock file answer store ⟨.error (.python e), client, file, .none⟩
  | file (safe : client.MemorySafe) (stale : ¬ client.HasFresh clock.now)
      (allowed : ¬ client.Denied file) {token : Json} {expiresAt : Time}
      (loads : client.Loads clock file token expiresAt)
      (gives : client.FileGives clock file token) :
      Access client clock file answer store
        ⟨.ok token, { client with token := token, tokenExpiresAt := some expiresAt }, file, .none⟩
  | refused (safe : client.MemorySafe) (stale : ¬ client.HasFresh clock.now)
      (allowed : ¬ client.Denied file) {loaded : KisClient}
      (load : client.loadCachedToken clock file = .ok loaded)
      (none : ∀ token, ¬ client.FileGives clock file token) {e : Failure}
      (raised : issueToken clock answer = .error e) :
      Access client clock file answer store ⟨.error e, loaded, file, .none⟩
  | issued (safe : client.MemorySafe) (stale : ¬ client.HasFresh clock.now)
      (allowed : ¬ client.Denied file) {loaded : KisClient}
      (load : client.loadCachedToken clock file = .ok loaded)
      (none : ∀ token, ¬ client.FileGives clock file token) {token : Json} {expiresAt : Time}
      (given : issueToken clock answer = .ok (token, expiresAt)) :
      Access client clock file answer store
        ⟨.ok token, { loaded with token := token, tokenExpiresAt := some expiresAt },
          loaded.storeCachedToken token expiresAt file store, some token⟩

theorem access (client : KisClient) (clock : Clock) (file : CacheFile) (answer : Answer)
    (store : StoreOutcome) :
    client.Access clock file answer store (client.accessToken clock file answer store) := by
  unfold accessToken
  cases first : client.tokenIsFresh clock.now with
  | error e => exact .overflow fun safe => tokenIsFresh_of_safe safe e first
  | ok fresh =>
      obtain ⟨safe, isFresh⟩ := tokenIsFresh_eq_ok.mp first
      cases fresh with
      | true => exact .memory safe (isFresh.mp rfl)
      | false =>
          have stale : ¬ client.HasFresh clock.now := fun held => by simp [held] at isFresh
          dsimp only
          cases load : client.loadCachedToken clock file with
          | error e =>
              refine .denied safe stale ?_
              by_contra allowed
              exact loadCachedToken_ne_error allowed e load
          | ok loaded =>
              have allowed : ¬ client.Denied file := fun denied => by
                simp [loadCachedToken, denied.1, denied.2] at load
              have gives := loaded_hasFresh load allowed stale
              dsimp only
              cases second : loaded.tokenIsFresh clock.now with
              | error e =>
                  exact absurd second
                    (tokenIsFresh_of_safe (loaded_memorySafe load allowed safe) e)
              | ok usable =>
                  have isUsable := (tokenIsFresh_eq_ok.mp second).2
                  cases usable with
                  | true =>
                      have given := gives.mp (isUsable.mp rfl)
                      generalize loaded.token = token at given
                      obtain ⟨expiresAt, loads⟩ := given.loads
                      have same := (loadCachedToken_of_loads loads).symm.trans load
                      cases same
                      exact .file safe stale allowed loads given
                  | false =>
                      have none : ∀ token, ¬ client.FileGives clock file token := by
                        intro token given
                        obtain ⟨expiresAt, loads⟩ := given.loads
                        have same := (loadCachedToken_of_loads loads).symm.trans load
                        cases same
                        simpa using isUsable.mpr (gives.mpr given)
                      dsimp only
                      cases issue : issueToken clock answer with
                      | error e => exact .refused safe stale allowed load none issue
                      | ok given => exact .issued safe stale allowed load none issue

end KisClient

end Token

end FundPolymarket.Kis
