import FundPolymarket.PythonTime
import FundPolymarket.RiskGate

set_option autoImplicit false

/- The sessions of `services/market_hours.py` on the calendar and the clock in Korea, and the
orders that reach the broker. -/
namespace FundPolymarket

open Python (InCalendar datetime daysInMonth isLeap toOrdinal)

section Calendar

/-- A value above the first of a sequence and up to another one lies in one of its steps. -/
theorem exists_step {f : ℕ → ℕ} {n last : ℕ} (above : f 0 < n) (within : n ≤ f last) :
    ∃ k < last, f k < n ∧ n ≤ f (k + 1) := by
  induction last with
  | zero => omega
  | succ last ih =>
      by_cases early : n ≤ f last
      · obtain ⟨k, before, step⟩ := ih early
        exact ⟨k, by omega, step⟩
      · exact ⟨last, by omega, by omega, within⟩

/-- The days before a year, counted from the year 0 on. -/
def daysBeforeYear (before : ℕ) : ℕ := before * 365 + before / 4 - before / 100 + before / 400

def daysBeforeMonth (year months : ℕ) : ℕ :=
  ((List.range months).map fun m => daysInMonth year (m + 1)).sum

theorem toOrdinal_eq (year month day : ℕ) :
    toOrdinal year month day = daysBeforeYear (year - 1) + daysBeforeMonth year (month - 1) + day :=
  rfl

theorem daysBeforeMonth_succ (year months : ℕ) :
    daysBeforeMonth year (months + 1) = daysBeforeMonth year months +
      daysInMonth year (months + 1) := by
  simp [daysBeforeMonth, List.range_succ]

theorem daysBeforeMonth_twelve (year : ℕ) :
    daysBeforeMonth year 12 = if isLeap year then 366 else 365 := by
  cases leap : isLeap year <;> simp [daysBeforeMonth, daysInMonth, leap, List.range_succ]

theorem isLeap_iff (year : ℕ) :
    isLeap year = true ↔ year % 4 = 0 ∧ (year % 100 ≠ 0 ∨ year % 400 = 0) := by
  simp [isLeap]

theorem succ_div_eq (n d : ℕ) : (n + 1) / d = n / d + if (n + 1) % d = 0 then 1 else 0 := by
  rw [Nat.succ_div]
  simp only [Nat.dvd_iff_mod_eq_zero]

/-- A year has the days of its twelve months. -/
theorem daysBeforeYear_succ (before : ℕ) :
    daysBeforeYear (before + 1) = daysBeforeYear before + daysBeforeMonth (before + 1) 12 := by
  have centuries : before / 100 ≤ before := Nat.div_le_self _ _
  rw [daysBeforeMonth_twelve, daysBeforeYear, daysBeforeYear, succ_div_eq before 4,
    succ_div_eq before 100, succ_div_eq before 400]
  simp only [isLeap_iff]
  by_cases four : (before + 1) % 4 = 0
  · by_cases hundred : (before + 1) % 100 = 0
    · by_cases fourHundred : (before + 1) % 400 = 0
      · simp only [four, hundred, fourHundred, ne_eq, not_true, or_true, and_self, if_true]
        omega
      · simp only [four, hundred, fourHundred, ne_eq, not_true, or_self, and_false, if_true,
          if_false]
        omega
    · have fourHundred : (before + 1) % 400 ≠ 0 := by omega
      simp only [four, hundred, fourHundred, ne_eq, not_false_eq_true, true_or, and_self, if_true,
        if_false]
      omega
  · have hundred : (before + 1) % 100 ≠ 0 := by omega
    have fourHundred : (before + 1) % 400 ≠ 0 := by omega
    simp only [four, hundred, fourHundred, false_and, if_false]
    omega

/-- Every day of the calendar is a day of some month. -/
theorem exists_date {ordinal : ℕ} (first : 1 ≤ ordinal) (last : ordinal ≤ daysBeforeYear 9999) :
    ∃ year month day, (1 ≤ year ∧ year ≤ 9999) ∧ (1 ≤ month ∧ month ≤ 12) ∧
      (1 ≤ day ∧ day ≤ daysInMonth year month) ∧ toOrdinal year month day = ordinal := by
  have afterZero : daysBeforeYear 0 < ordinal := by
    simp only [daysBeforeYear, Nat.zero_mul, Nat.zero_div]
    omega
  obtain ⟨before, early, passed, inYear⟩ := exists_step afterZero last
  rw [daysBeforeYear_succ] at inYear
  have started : daysBeforeMonth (before + 1) 0 < ordinal - daysBeforeYear before :=
    Nat.sub_pos_of_lt passed
  obtain ⟨months, inTwelve, reached, inMonth⟩ :=
    @exists_step _ _ 12 started (by omega)
  rw [daysBeforeMonth_succ] at inMonth
  refine ⟨before + 1, months + 1,
    ordinal - daysBeforeYear before - daysBeforeMonth (before + 1) months, by omega, by omega,
    by omega, ?_⟩
  rw [toOrdinal_eq, Nat.add_sub_cancel, Nat.add_sub_cancel]
  omega

end Calendar

/-- What a calendar and a clock in Korea show. -/
structure Civil where
  year : ℕ
  month : ℕ
  day : ℕ
  hour : ℕ
  minute : ℕ
  second : ℕ
  micros : ℕ

namespace Civil

/-- They show it at this instant. -/
structure Shows (civil : Civil) (now : Time) : Prop where
  micros : civil.micros < 1000000
  instant : ∃ t, datetime civil.year civil.month civil.day civil.hour civil.minute civil.second =
    some t ∧ (now : ℤ) + clock 9 0 = t + civil.micros

/-- `weekday()`, from Monday on. -/
def weekday (civil : Civil) : ℕ := (toOrdinal civil.year civil.month civil.day + 6) % 7

/-- `time()`; times are compared from the hour on. -/
def time (civil : Civil) : List ℕ := [civil.hour, civil.minute, civil.second, civil.micros]

/-- `time(hour, minute)`. -/
def timeAt (hour minute : ℕ) : List ℕ := [hour, minute, 0, 0]

def session (civil : Civil) : SessionWindow :=
  if 5 ≤ civil.weekday then .closed
  else if timeAt 8 0 ≤ civil.time ∧ civil.time < timeAt 9 0 then .preMarket
  else if timeAt 9 0 ≤ civil.time ∧ civil.time ≤ timeAt 15 30 then .regular
  else if timeAt 15 40 ≤ civil.time ∧ civil.time ≤ timeAt 18 0 then .afterMarket
  else .closed

end Civil

section Shows

variable {civil : Civil} {now : Time}

/-- Microseconds since midnight. -/
def Civil.sinceMidnight (civil : Civil) : ℕ :=
  (civil.hour * 3600 + civil.minute * 60 + civil.second) * 1000000 + civil.micros

theorem Civil.Shows.facts (shows : civil.Shows now) :
    (civil.hour < 24 ∧ civil.minute < 60 ∧ civil.second < 60 ∧ civil.micros < 1000000) ∧
      (now : ℤ) + clock 9 0 =
        ((toOrdinal civil.year civil.month civil.day : ℤ) - 719163) * microsPerDay +
          civil.sinceMidnight := by
  obtain ⟨micros, t, shown, same⟩ := shows
  unfold datetime at shown
  split at shown
  · rename_i valid
    cases shown
    obtain ⟨_, _, _, hour, minute, second⟩ := valid
    refine ⟨⟨hour, minute, second, micros⟩, ?_⟩
    rw [same, Civil.sinceMidnight, microsPerDay, Python.microsPerSecond]
    push_cast
    ring
  · cases shown

theorem time_lt_timeAt {h m : ℕ} (minute : civil.minute < 60) (second : civil.second < 60)
    (micros : civil.micros < 1000000) (valid : m < 60) :
    civil.time < Civil.timeAt h m ↔ (civil.sinceMidnight : ℤ) < clock h m := by
  simp only [Civil.time, Civil.timeAt, Civil.sinceMidnight, clock, List.cons_lt_cons_iff,
    List.not_lt_nil, and_false, or_false, Nat.not_lt_zero]
  push_cast
  omega

theorem timeAt_lt_time {h m : ℕ} (minute : civil.minute < 60) (second : civil.second < 60)
    (micros : civil.micros < 1000000) (valid : m < 60) :
    Civil.timeAt h m < civil.time ↔ (clock h m : ℤ) < civil.sinceMidnight := by
  simp only [Civil.time, Civil.timeAt, Civil.sinceMidnight, clock, List.cons_lt_cons_iff,
    List.not_lt_nil, and_false, or_false]
  push_cast
  omega

theorem day_and_time (day : ℤ) {t : ℕ} (inDay : t < 86400000000) :
    (day * microsPerDay + t) / microsPerDay = day ∧
      (day * microsPerDay + t) % microsPerDay = t := by
  unfold microsPerDay
  omega

/-- The session that the risk check computes from the timestamp is the one that the calendar and
the clock show. -/
theorem currentSession_eq (shows : civil.Shows now) : currentSession now = civil.session := by
  obtain ⟨⟨hour, minute, second, micros⟩, instant⟩ := shows.facts
  have inDay : civil.sinceMidnight < 86400000000 := by
    unfold Civil.sinceMidnight
    omega
  have ⟨day, time⟩ := day_and_time
    ((toOrdinal civil.year civil.month civil.day : ℤ) - 719163) inDay
  rw [← instant] at day time
  have weekday : 5 ≤ ((toOrdinal civil.year civil.month civil.day : ℤ) - 719163 + 3) % 7 ↔
      5 ≤ civil.weekday := by
    unfold Civil.weekday
    omega
  have before := fun h m valid => @time_lt_timeAt civil h m minute second micros valid
  have after := fun h m valid => @timeAt_lt_time civil h m minute second micros valid
  simp only [currentSession, Civil.session, day, time, weekday, ← not_lt, before 9 0 (by decide),
    before 8 0 (by decide), before 15 40 (by decide), after 15 30 (by decide),
    after 18 0 (by decide), Nat.cast_ofNat, Nat.cast_zero]

/-- Every instant of the calendar is shown. -/
theorem exists_shows (inCalendar : InCalendar ((now : ℤ) + clock 9 0)) :
    ∃ civil : Civil, civil.Shows now := by
  obtain ⟨first, last⟩ := inCalendar
  unfold Python.minTime at first
  unfold Python.maxTime at last
  have lastYear : daysBeforeYear 9999 = 3652059 := by decide
  obtain ⟨kst, same⟩ : ∃ kst : ℤ, kst = (now : ℤ) + clock 9 0 := ⟨_, rfl⟩
  rw [← same] at first last
  obtain ⟨year, month, day, inYears, inMonths, inDays, ordinal⟩ :=
    @exists_date (kst / 86400000000 + 719163).toNat (by omega) (by omega)
  obtain ⟨t, rest⟩ : ∃ t : ℕ, (t : ℤ) = kst % 86400000000 := ⟨(kst % 86400000000).toNat, by omega⟩
  refine ⟨⟨year, month, day, t / 3600000000, t / 60000000 % 60, t / 1000000 % 60, t % 1000000⟩, ?_⟩
  constructor
  · show t % 1000000 < 1000000
    omega
  · refine ⟨_, if_pos ⟨inYears, inMonths, inDays, ?_, ?_, ?_⟩, ?_⟩
    · rw [← same, ordinal]
      unfold Python.microsPerSecond
      show kst = _ + ((t % 1000000 : ℕ) : ℤ)
      dsimp only
      omega
    · show t / 3600000000 < 24
      omega
    · show t / 60000000 % 60 < 60
      omega
    · show t / 1000000 % 60 < 60
      omega

end Shows

section Orders

/-- The sessions in which an order may go out. -/
def SessionWindow.Takes (window : SessionWindow) (orderType : OrderType) : Prop :=
  window.isOpen = true ∧ (orderType = .market → window = .regular)

instance (window : SessionWindow) (orderType : OrderType) : Decidable (window.Takes orderType) :=
  inferInstanceAs (Decidable (_ ∧ _))

/-- Where the market hours are enforced, every order that goes to the broker goes at an instant
at which the calendar and the clock in Korea show a session that takes it. -/
theorem orders_in_session (start : Db) (events : List Event) :
    ∀ s ∈ stepsFrom start events, ∀ sent ∈ s.sent, ∃ env decisionId adminId,
      s.event = .request env (.approveDecision decisionId adminId) ∧
        (env.settings.enforceMarketHours = true → InCalendar ((env.now : ℤ) + clock 9 0) →
          ∃ civil : Civil, civil.Shows env.now ∧ civil.session.Takes sent.orderType) := by
  intro s member sent sentMember
  obtain ⟨env, decisionId, adminId, decision, prepared, event, sends⟩ :=
    Step.sent_approval sentMember
  refine ⟨env, decisionId, adminId, event, fun enforced inCalendar => ?_⟩
  have prepares := prepareOrder_eq_ok sends.prepared_eq
  have allowed : (checkOrder env.settings s.pre prepared.ctx env.now env.broker).allowed = true :=
    prepares.verdict_eq ▸ sends.allowed
  have takes : (currentSession env.now).Takes prepared.ctx.orderType :=
    sessionReasons_eq_nil.mp (checkOrder_allowed_iff.mp allowed).2.1.1 enforced
  obtain ⟨civil, shows⟩ := exists_shows inCalendar
  rw [currentSession_eq shows] at takes
  refine ⟨civil, shows, ?_⟩
  rw [prepares.ctx_eq] at takes
  rw [sends.sent_eq]
  exact takes

end Orders

/-- An order on a Tuesday morning. -/
theorem orders_in_session_tuesday :
    (⟨2024, 1, 2, 9, 30, 0, 0⟩ : Civil).Shows desk.now ∧
      ∃ civil : Civil, civil.Shows desk.now ∧ civil.session.Takes .limit := by
  refine ⟨⟨by decide, _, rfl, by decide⟩, ?_⟩
  obtain ⟨env, _, _, same, inSession⟩ := orders_in_session Db.empty
    (pendingDecision ++ [.request desk (.approveDecision 1 1)]) _
    (stepsFrom_last Db.empty pendingDecision _) ⟨"005930", .buy, 2, .limit, some 50000⟩
    (by decide +kernel)
  cases same
  exact inSession rfl (by decide)

end FundPolymarket
