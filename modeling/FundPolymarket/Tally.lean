import FundPolymarket.DecimalContext
import Mathlib.Algebra.Order.BigOperators.Group.List

set_option autoImplicit false

/- Insertion-ordered dictionaries that add up decimals per key, as
`d[key] = d.get(key, 0) + amount` does. -/
namespace FundPolymarket.Tally

variable {κ : Type} [DecidableEq κ]

def add : List (κ × ℚ) → κ → ℚ → List (κ × ℚ)
  | [], key, amount => [(key, Decimal.add 0 amount)]
  | (other, value) :: rest, key, amount =>
      if other = key then (other, Decimal.add value amount) :: rest
      else (other, value) :: add rest key amount

def ofList (entries : List (κ × ℚ)) : List (κ × ℚ) :=
  entries.foldl (fun tally entry => add tally entry.1 entry.2) []

/-- `d.get(key, 0)`. -/
def get (tally : List (κ × ℚ)) (key : κ) : ℚ :=
  ((tally.find? fun entry => entry.1 = key).map Prod.snd).getD 0

/-- `d.get(key)`. -/
def get? (tally : List (κ × ℚ)) (key : κ) : Option ℚ :=
  (tally.find? fun entry => entry.1 = key).map Prod.snd

/-- `d[key] = value`. -/
def set : List (κ × ℚ) → κ → ℚ → List (κ × ℚ)
  | [], key, value => [(key, value)]
  | (other, old) :: rest, key, value =>
      if other = key then (other, value) :: rest else (other, old) :: set rest key value

/-- `{key: 0 for key in keys}`. -/
def zeros (keys : List κ) : List (κ × ℚ) := keys.foldl (fun tally key => set tally key 0) []

/-- `if key in d: d[key] += amount`. -/
def addKnown (tally : List (κ × ℚ)) (key : κ) (amount : ℚ) : List (κ × ℚ) :=
  if key ∈ tally.map Prod.fst then add tally key amount else tally

def total (tally : List (κ × ℚ)) : ℚ := (tally.map Prod.snd).sum

theorem get_add (tally : List (κ × ℚ)) (key : κ) (amount : ℚ) (listed : κ) :
    get (add tally key amount) listed =
      if key = listed then Decimal.add (get tally listed) amount else get tally listed := by
  induction tally with
  | nil => by_cases same : key = listed <;> simp [add, get, same]
  | cons entry rest ih =>
      obtain ⟨other, value⟩ := entry
      by_cases found : other = key
      · subst found
        by_cases same : other = listed <;> simp [add, get, same]
      · rw [add, if_neg found]
        by_cases same : other = listed
        · have differs : key ≠ listed := fun key_eq => found (same.trans key_eq.symm)
          simp [get, same, differs]
        · simpa [get, same] using ih

theorem get_foldl_add (entries tally : List (κ × ℚ)) (listed : κ) :
    get (entries.foldl (fun tally entry => add tally entry.1 entry.2) tally) listed =
      ((entries.filter fun entry => entry.1 = listed).map Prod.snd).foldl Decimal.add
        (get tally listed) := by
  induction entries generalizing tally with
  | nil => rfl
  | cons entry entries ih =>
      rw [List.foldl_cons, ih, get_add, List.filter_cons]
      split <;> simp_all

/-- A key's total is the decimal sum of its entries. -/
theorem get_ofList (entries : List (κ × ℚ)) (listed : κ) :
    get (ofList entries) listed =
      Decimal.sum ((entries.filter fun entry => entry.1 = listed).map Prod.snd) :=
  get_foldl_add entries [] listed

omit [DecidableEq κ] in
@[simp] theorem total_nil : total ([] : List (κ × ℚ)) = 0 := rfl

omit [DecidableEq κ] in
@[simp] theorem total_cons (entry : κ × ℚ) (rest : List (κ × ℚ)) :
    total (entry :: rest) = entry.2 + total rest := List.sum_cons

theorem mem_keys_add (tally : List (κ × ℚ)) (key : κ) (amount : ℚ) (listed : κ) :
    listed ∈ (add tally key amount).map Prod.fst ↔
      listed = key ∨ listed ∈ tally.map Prod.fst := by
  induction tally with
  | nil => simp [add]
  | cons entry rest ih =>
      obtain ⟨other, value⟩ := entry
      unfold add
      split
      · rename_i same
        subst same
        simp
      · rw [List.map_cons, List.mem_cons, ih, List.map_cons, List.mem_cons]
        exact or_left_comm

theorem mem_keys_ofList (entries : List (κ × ℚ)) (listed : κ) :
    listed ∈ (ofList entries).map Prod.fst ↔ listed ∈ entries.map Prod.fst := by
  have general : ∀ tally : List (κ × ℚ),
      listed ∈ (entries.foldl (fun tally entry => add tally entry.1 entry.2) tally).map Prod.fst ↔
        listed ∈ entries.map Prod.fst ∨ listed ∈ tally.map Prod.fst := by
    induction entries with
    | nil => simp
    | cons entry entries ih =>
        intro tally
        rw [List.foldl_cons, ih, mem_keys_add, List.map_cons, List.mem_cons]
        tauto
  simpa [ofList] using general []

/-- No key is listed twice. -/
theorem nodup_add {tally : List (κ × ℚ)} (nodup : (tally.map Prod.fst).Nodup) (key : κ)
    (amount : ℚ) : ((add tally key amount).map Prod.fst).Nodup := by
  induction tally with
  | nil => simp [add]
  | cons entry rest ih =>
      obtain ⟨other, value⟩ := entry
      rw [List.map_cons, List.nodup_cons] at nodup
      unfold add
      split
      · rw [List.map_cons, List.nodup_cons]
        exact nodup
      · rename_i differs
        rw [List.map_cons, List.nodup_cons]
        refine ⟨?_, ih nodup.2⟩
        rw [mem_keys_add]
        rintro (same | listed)
        · exact differs same
        · exact nodup.1 listed

theorem foldl_add_induction {motive : List (κ × ℚ) → Prop}
    (step : ∀ tally key amount, motive tally → motive (add tally key amount))
    (entries : List (κ × ℚ)) {tally : List (κ × ℚ)} (start : motive tally) :
    motive (entries.foldl (fun tally entry => add tally entry.1 entry.2) tally) := by
  induction entries generalizing tally with
  | nil => exact start
  | cons entry entries ih => exact ih (step tally entry.1 entry.2 start)

theorem get_eq_getD (tally : List (κ × ℚ)) (key : κ) :
    get tally key = (get? tally key).getD 0 := rfl

theorem get?_isSome_iff (tally : List (κ × ℚ)) (key : κ) :
    (get? tally key).isSome ↔ key ∈ tally.map Prod.fst := by
  simp [get?, List.find?_isSome]

theorem get?_set (tally : List (κ × ℚ)) (key : κ) (value : ℚ) (listed : κ) :
    get? (set tally key value) listed = if key = listed then some value else get? tally listed := by
  induction tally with
  | nil => by_cases same : key = listed <;> simp [set, get?, same]
  | cons entry rest ih =>
      obtain ⟨other, old⟩ := entry
      by_cases found : other = key
      · subst found
        by_cases same : other = listed <;> simp [set, get?, same]
      · rw [set, if_neg found]
        by_cases same : other = listed
        · have differs : key ≠ listed := fun key_eq => found (same.trans key_eq.symm)
          simp [get?, same, differs]
        · simpa [get?, same] using ih

/-- Keys that are set once each hold what they were set to. -/
theorem get?_foldl_set {entries : List (κ × ℚ)} (nodup : (entries.map Prod.fst).Nodup)
    (tally : List (κ × ℚ)) (listed : κ) :
    get? (entries.foldl (fun tally entry => set tally entry.1 entry.2) tally) listed =
      (get? entries listed).or (get? tally listed) := by
  induction entries generalizing tally with
  | nil => rfl
  | cons entry entries ih =>
      rw [List.map_cons, List.nodup_cons] at nodup
      rw [List.foldl_cons, ih nodup.2, get?_set]
      by_cases here : entry.1 = listed
      · have absent : get? entries listed = none := by
          rw [← Option.not_isSome_iff_eq_none, get?_isSome_iff, ← here]
          exact nodup.1
        have first : get? (entry :: entries) listed = some entry.2 := by simp [get?, here]
        rw [absent, first, if_pos here]
        rfl
      · have later : get? (entry :: entries) listed = get? entries listed := by simp [get?, here]
        rw [later, if_neg here]

theorem get?_map_keys (keys : List κ) (value : κ → ℚ) (listed : κ) :
    get? (keys.map fun key => (key, value key)) listed =
      if listed ∈ keys then some (value listed) else none := by
  induction keys with
  | nil => rfl
  | cons key keys ih =>
      by_cases here : key = listed
      · simp [get?, here]
      · have later : get? ((key :: keys).map fun key => (key, value key)) listed =
            get? (keys.map fun key => (key, value key)) listed := by simp [get?, here]
        rw [later, ih]
        simp [Ne.symm here]

theorem get?_zeros (keys : List κ) (listed : κ) :
    get? (zeros keys) listed = if listed ∈ keys then some 0 else none := by
  have general : ∀ tally : List (κ × ℚ),
      get? (keys.foldl (fun tally key => set tally key 0) tally) listed =
        if listed ∈ keys then some 0 else get? tally listed := by
    induction keys with
    | nil => simp
    | cons key keys ih =>
        intro tally
        rw [List.foldl_cons, ih, get?_set]
        by_cases later : listed ∈ keys
        · simp [later]
        · by_cases here : key = listed
          · simp [here]
          · simp [later, here, Ne.symm here]
  exact general []

/-- A key that is known from the start adds up its entries. -/
theorem get_foldl_addKnown (entries : List (κ × ℚ)) {tally : List (κ × ℚ)} {listed : κ}
    (known : listed ∈ tally.map Prod.fst) :
    get (entries.foldl (fun tally entry => addKnown tally entry.1 entry.2) tally) listed =
      ((entries.filter fun entry => entry.1 = listed).map Prod.snd).foldl Decimal.add
        (get tally listed) := by
  induction entries generalizing tally with
  | nil => rfl
  | cons entry entries ih =>
      rw [List.foldl_cons, addKnown]
      by_cases counts : entry.1 ∈ tally.map Prod.fst
      · rw [if_pos counts, ih ((mem_keys_add _ _ _ _).mpr (.inr known)), get_add, List.filter_cons]
        by_cases own : entry.1 = listed <;> simp [own]
      · have other : entry.1 ≠ listed := fun own => counts (own ▸ known)
        rw [if_neg counts, ih known, List.filter_cons_of_neg (by simp [other])]

theorem nodup_ofList (entries : List (κ × ℚ)) : ((ofList entries).map Prod.fst).Nodup :=
  foldl_add_induction (motive := fun tally => (tally.map Prod.fst).Nodup)
    (fun _ key amount nodup => nodup_add nodup key amount) entries (by simp)

theorem forall_get {P : ℚ → Prop} (zero : P 0) {tally : List (κ × ℚ)}
    (each : ∀ entry ∈ tally, P entry.2) (key : κ) : P (get tally key) := by
  rw [get]
  cases search : tally.find? fun entry => entry.1 = key with
  | none => exact zero
  | some entry => exact each entry (List.mem_of_find?_eq_some search)

section Forall

variable {P : ℚ → Prop} (zero : P 0) (closed : ∀ x y, P x → P y → P (Decimal.add x y))
include zero closed

/-- What additions keep holds of every amount of a tally. -/
theorem forall_add {tally : List (κ × ℚ)} {key : κ} {amount : ℚ}
    (each : ∀ entry ∈ tally, P entry.2) (new : P amount) :
    ∀ entry ∈ add tally key amount, P entry.2 := by
  induction tally with
  | nil =>
      intro entry member
      rw [add, List.mem_singleton] at member
      rw [member]
      exact closed 0 amount zero new
  | cons entry rest ih =>
      obtain ⟨other, value⟩ := entry
      have head : P value := each (other, value) (by simp)
      have tail : ∀ entry ∈ rest, P entry.2 := fun entry member =>
        each entry (List.mem_cons_of_mem _ member)
      unfold add
      split
      · intro entry member
        rcases List.mem_cons.mp member with rfl | member
        · exact closed value amount head new
        · exact tail entry member
      · intro entry member
        rcases List.mem_cons.mp member with rfl | member
        · exact head
        · exact ih tail entry member

theorem forall_ofList {entries : List (κ × ℚ)} (each : ∀ entry ∈ entries, P entry.2) :
    ∀ entry ∈ ofList entries, P entry.2 := by
  have general : ∀ tally : List (κ × ℚ), (∀ entry ∈ tally, P entry.2) →
      ∀ entry ∈ entries.foldl (fun tally entry => add tally entry.1 entry.2) tally, P entry.2 := by
    induction entries with
    | nil => exact fun _ start => start
    | cons head entries ih =>
        intro tally start
        exact ih (fun entry member => each entry (List.mem_cons_of_mem _ member)) _
          (forall_add zero closed start (each head (by simp)))
  exact general [] (by simp)

end Forall

theorem nonneg_ofList {entries : List (κ × ℚ)} (nonneg : ∀ entry ∈ entries, 0 ≤ entry.2) :
    ∀ entry ∈ ofList entries, 0 ≤ entry.2 :=
  forall_ofList le_rfl (fun _ _ left right => Decimal.fix_nonneg (add_nonneg left right)) nonneg

/-- A tally of whole, nonnegative hundredths. -/
structure Cents (tally : List (κ × ℚ)) : Prop where
  scaled : ∀ entry ∈ tally, Decimal.Scaled 2 entry.2
  nonneg : ∀ entry ∈ tally, 0 ≤ entry.2

namespace Cents

omit [DecidableEq κ] in
theorem nil : Cents ([] : List (κ × ℚ)) := ⟨by simp, by simp⟩

omit [DecidableEq κ] in
theorem tail {entry : κ × ℚ} {rest : List (κ × ℚ)} (cents : Cents (entry :: rest)) :
    Cents rest :=
  ⟨fun other member => cents.scaled other (by simp [member]),
    fun other member => cents.nonneg other (by simp [member])⟩

omit [DecidableEq κ] in
theorem total_nonneg {tally : List (κ × ℚ)} (cents : Cents tally) : 0 ≤ total tally := by
  apply List.sum_nonneg
  intro value member
  obtain ⟨entry, entryMember, rfl⟩ := List.mem_map.mp member
  exact cents.nonneg entry entryMember

omit [DecidableEq κ] in
theorem total_scaled {tally : List (κ × ℚ)} (cents : Cents tally) :
    Decimal.Scaled 2 (total tally) := by
  apply Decimal.Scaled.sum
  intro value member
  obtain ⟨entry, entryMember, rfl⟩ := List.mem_map.mp member
  exact cents.scaled entry entryMember

omit [DecidableEq κ] in
theorem sum_eq {tally : List (κ × ℚ)} (cents : Cents tally) (small : total tally < 10 ^ 26) :
    Decimal.sum (tally.map Prod.snd) = total tally := by
  refine Decimal.sum_exact ?_ ?_ small
  · intro value member
    obtain ⟨entry, entryMember, rfl⟩ := List.mem_map.mp member
    exact cents.scaled entry entryMember
  · intro value member
    obtain ⟨entry, entryMember, rfl⟩ := List.mem_map.mp member
    exact cents.nonneg entry entryMember

end Cents

/-- Adding hundredths is exact while the whole tally fits the context. -/
theorem cents_add {tally : List (κ × ℚ)} (cents : Cents tally) (key : κ) {amount : ℚ}
    (amountCents : Decimal.Scaled 2 amount) (amountNonneg : 0 ≤ amount)
    (small : total tally + amount < 10 ^ 26) :
    Cents (add tally key amount) ∧ total (add tally key amount) = total tally + amount := by
  induction tally with
  | nil =>
      have exact_start : Decimal.add 0 amount = amount := by
        simpa using Decimal.add_exact Decimal.Scaled.zero amountCents le_rfl amountNonneg
          (by simpa using small)
      refine ⟨⟨?_, ?_⟩, ?_⟩ <;> simp [add, exact_start, amountCents, amountNonneg]
  | cons entry rest ih =>
      obtain ⟨other, value⟩ := entry
      have headCents : Decimal.Scaled 2 value := cents.scaled (other, value) (by simp)
      have headNonneg : 0 ≤ value := cents.nonneg (other, value) (by simp)
      have restNonneg := cents.tail.total_nonneg
      rw [total_cons] at small
      unfold add
      split
      · have exact_step :=
          Decimal.add_exact headCents amountCents headNonneg amountNonneg (by linarith)
        refine ⟨⟨?_, ?_⟩, ?_⟩
        · intro entry member
          rcases List.mem_cons.mp member with rfl | member
          · exact exact_step ▸ headCents.add amountCents
          · exact cents.tail.scaled entry member
        · intro entry member
          rcases List.mem_cons.mp member with rfl | member
          · exact exact_step ▸ add_nonneg headNonneg amountNonneg
          · exact cents.tail.nonneg entry member
        · rw [total_cons, total_cons, exact_step]
          ring
      · obtain ⟨restCents, restTotal⟩ := ih cents.tail (by dsimp only at small; linarith)
        refine ⟨⟨?_, ?_⟩, ?_⟩
        · intro entry member
          rcases List.mem_cons.mp member with rfl | member
          · exact headCents
          · exact restCents.scaled entry member
        · intro entry member
          rcases List.mem_cons.mp member with rfl | member
          · exact headNonneg
          · exact restCents.nonneg entry member
        · rw [total_cons, total_cons, restTotal]
          ring

theorem cents_foldl {entries tally : List (κ × ℚ)} (tallyCents : Cents tally)
    (entryCents : Cents entries) (small : total tally + total entries < 10 ^ 26) :
    Cents (entries.foldl (fun tally entry => add tally entry.1 entry.2) tally) ∧
      total (entries.foldl (fun tally entry => add tally entry.1 entry.2) tally) =
        total tally + total entries := by
  induction entries generalizing tally with
  | nil => simpa using tallyCents
  | cons entry entries ih =>
      rw [total_cons] at small ⊢
      have headNonneg := entryCents.nonneg entry (by simp)
      have tailNonneg := entryCents.tail.total_nonneg
      obtain ⟨nextCents, nextTotal⟩ := cents_add tallyCents entry.1
        (entryCents.scaled entry (by simp)) headNonneg (by linarith)
      rw [← add_assoc, ← nextTotal] at small ⊢
      exact ih nextCents entryCents.tail small

/-- Nothing is lost by grouping hundredths per key. -/
theorem cents_ofList {entries : List (κ × ℚ)} (cents : Cents entries)
    (small : total entries < 10 ^ 26) :
    Cents (ofList entries) ∧ total (ofList entries) = total entries := by
  simpa [ofList] using cents_foldl Cents.nil cents (by simpa using small)

section Order

/-- A dictionary holds an entry where it lists the key with that amount. -/
theorem mem_iff_get {tally : List (κ × ℚ)} (nodup : (tally.map Prod.fst).Nodup) (entry : κ × ℚ) :
    entry ∈ tally ↔ entry.1 ∈ tally.map Prod.fst ∧ get tally entry.1 = entry.2 := by
  induction tally with
  | nil => simp
  | cons head rest ih =>
      rw [List.map_cons, List.nodup_cons] at nodup
      by_cases same : head.1 = entry.1
      · have absent : entry ∉ rest := fun member =>
          nodup.1 (same ▸ List.mem_map_of_mem member)
        have found : get (head :: rest) entry.1 = head.2 := by simp [get, same]
        rw [List.mem_cons, found, Prod.ext_iff]
        simp [same, absent, eq_comm]
      · have differs : entry ≠ head := fun equal => same (equal ▸ rfl)
        have passed : get (head :: rest) entry.1 = get rest entry.1 := by simp [get, same]
        have other : ¬ entry.1 = head.1 := fun equal => same equal.symm
        rw [List.mem_cons, passed, ih nodup.2, List.map_cons, List.mem_cons]
        simp only [differs, other, false_or]

/-- Dictionaries with the same keys and amounts differ in their insertion order only. -/
theorem perm_of_get {left right : List (κ × ℚ)} (leftNodup : (left.map Prod.fst).Nodup)
    (rightNodup : (right.map Prod.fst).Nodup)
    (keys : ∀ key, key ∈ left.map Prod.fst ↔ key ∈ right.map Prod.fst)
    (amounts : ∀ key, get left key = get right key) : left.Perm right := by
  rw [List.perm_ext_iff_of_nodup leftNodup.of_map rightNodup.of_map]
  intro entry
  rw [mem_iff_get leftNodup, mem_iff_get rightNodup, keys, amounts]

theorem get_of_absent {tally : List (κ × ℚ)} {key : κ} (absent : key ∉ tally.map Prod.fst) :
    get tally key = 0 := by
  rw [get, List.find?_eq_none.mpr, Option.map_none, Option.getD_none]
  intro entry member
  rw [decide_eq_true_eq]
  rintro rfl
  exact absent (List.mem_map_of_mem member)

theorem get_perm {left right : List (κ × ℚ)} (perm : left.Perm right)
    (nodup : (left.map Prod.fst).Nodup) (key : κ) : get left key = get right key := by
  have keys := (perm.map Prod.fst).mem_iff (a := key)
  by_cases listed : key ∈ left.map Prod.fst
  · have member := (mem_iff_get nodup (key, get left key)).mpr ⟨listed, rfl⟩
    have rightNodup := (perm.map Prod.fst).nodup_iff.mp nodup
    exact ((mem_iff_get rightNodup _).mp (perm.mem_iff.mp member)).2.symm
  · rw [get_of_absent listed, get_of_absent (mt keys.mpr listed)]

theorem add_perm {left right : List (κ × ℚ)} (perm : left.Perm right)
    (nodup : (left.map Prod.fst).Nodup) (key : κ) (amount : ℚ) :
    (add left key amount).Perm (add right key amount) := by
  have rightNodup := (perm.map Prod.fst).nodup_iff.mp nodup
  apply perm_of_get (nodup_add nodup key amount) (nodup_add rightNodup key amount)
  · intro listed
    rw [mem_keys_add, mem_keys_add, (perm.map Prod.fst).mem_iff]
  · intro listed
    rw [get_add, get_add, get_perm perm nodup]

omit [DecidableEq κ] in
theorem total_perm {left right : List (κ × ℚ)} (perm : left.Perm right) :
    total left = total right := (perm.map Prod.snd).sum_eq

/-- Whole hundredths are grouped to the same amounts in any order. -/
theorem ofList_perm {left right : List (κ × ℚ)} (perm : left.Perm right) (cents : Cents left)
    (small : total left < 10 ^ 26) : (ofList left).Perm (ofList right) := by
  have own_exact : ∀ (entries : List (κ × ℚ)) (key : κ), Cents entries →
      total entries < 10 ^ 26 → get (ofList entries) key =
        ((entries.filter fun entry => entry.1 = key).map Prod.snd).sum := by
    intro entries key entryCents below
    have part := (List.filter_sublist (p := fun entry : κ × ℚ => entry.1 = key)
      (l := entries)).map Prod.snd
    rw [get_ofList, Decimal.sum_exact]
    · intro amount member
      obtain ⟨entry, listed, rfl⟩ := List.mem_map.mp member
      exact entryCents.scaled entry (List.mem_filter.mp listed).1
    · intro amount member
      obtain ⟨entry, listed, rfl⟩ := List.mem_map.mp member
      exact entryCents.nonneg entry (List.mem_filter.mp listed).1
    · refine lt_of_le_of_lt (part.sum_le_sum ?_) below
      intro amount member
      obtain ⟨entry, listed, rfl⟩ := List.mem_map.mp member
      exact entryCents.nonneg entry listed
  have rightCents : Cents right :=
    ⟨fun entry member => cents.scaled entry (perm.mem_iff.mpr member),
      fun entry member => cents.nonneg entry (perm.mem_iff.mpr member)⟩
  apply perm_of_get (nodup_ofList left) (nodup_ofList right)
  · intro key
    rw [mem_keys_ofList, mem_keys_ofList, (perm.map Prod.fst).mem_iff]
  · intro key
    rw [own_exact left key cents small, own_exact right key rightCents (total_perm perm ▸ small)]
    exact ((perm.filter _).map Prod.snd).sum_eq

end Order

end FundPolymarket.Tally
