import FundPolymarket.Accounts
import FundPolymarket.Redaction
import FundPolymarket.Scoring

set_option autoImplicit false

/- The balances and net profits that are read in one pass, against those of one member. -/
namespace FundPolymarket

open Decimal (Numeric Scaled)
open Redaction (sumOf)

/-- The keys of the bets and of the ledger are 32-bit integers. -/
def IntegerKeys (db : Db) : Prop :=
  (∀ row ∈ db.bets.rows, row.1 < 2 ^ 31) ∧ ∀ row ∈ db.ledger.rows, row.1 < 2 ^ 31

section Keys

/-- Stored points add up exactly, as many as there are keys. -/
theorem sum_points_exact {values : List Points} (few : values.length ≤ 2 ^ 31) :
    Decimal.sum (values.map Numeric.val) = (values.map Numeric.val).sum := by
  have each : ∀ x ∈ (values.map Numeric.val).map abs, x ≤ (10 ^ 16 : ℚ) := by
    intro x member
    obtain ⟨y, listed, rfl⟩ := List.mem_map.mp member
    obtain ⟨value, _, rfl⟩ := List.mem_map.mp listed
    have below := value.abs_val_lt
    norm_num at below
    linarith
  have total := List.sum_le_card_nsmul _ _ each
  rw [List.length_map, List.length_map, nsmul_eq_mul] at total
  have count : (values.length : ℚ) ≤ 2 ^ 31 := by exact_mod_cast few
  rw [Decimal.sum, Decimal.foldl_add_scaled_abs Scaled.zero, zero_add]
  · intro x member
    obtain ⟨value, _, rfl⟩ := List.mem_map.mp member
    exact value.val_scaled
  · have context : (10 : ℚ) ^ (Decimal.prec - (2 : ℕ) : ℤ) = 10 ^ 26 := by norm_num [Decimal.prec]
    rw [abs_zero, zero_add, context]
    linarith

theorem Table.length_le_of_keys {α : Type} {table : Table α} {bound : ℕ}
    (keys : ∀ row ∈ table.rows, row.1 < bound) : table.rows.length ≤ bound := by
  have within : table.rows.map Prod.fst ⊆ List.range bound := by
    intro id member
    obtain ⟨row, listed, rfl⟩ := List.mem_map.mp member
    exact List.mem_range.mpr (keys row listed)
  have count := (table.distinct.subperm within).length_le
  rwa [List.length_map, List.length_range] at count

end Keys

section Passes

variable {db : Db}

theorem nodup_balanceRows (memberIds : List ℕ) :
    ((balanceRows db memberIds).map Prod.fst).Nodup := by
  rw [balanceRows, List.map_map]
  exact (List.map_id _).symm ▸ List.nodup_dedup _

theorem get?_balanceRows {memberIds : List ℕ} {memberId : ℕ} (listed : memberId ∈ memberIds) :
    Tally.get? (balanceRows db memberIds) memberId =
      if memberId ∈ db.ledger.contents.map LedgerEntry.memberId then some (getBalance db memberId)
      else none := by
  have own : ((db.ledger.contents.filter fun entry => entry.memberId ∈ memberIds).filter
      fun entry => entry.memberId = memberId) =
        db.ledger.contents.filter fun entry => entry.memberId = memberId := by
    rw [List.filter_filter]
    refine List.filter_congr fun entry _ => ?_
    by_cases mine : entry.memberId = memberId <;> simp [mine, listed]
  rw [balanceRows, Tally.get?_map_keys, own, ← getBalance]
  refine if_congr ?_ rfl rfl
  simp only [List.mem_dedup, List.mem_map, List.mem_filter, decide_eq_true_eq]
  constructor
  · rintro ⟨entry, ⟨member, _⟩, rfl⟩
    exact ⟨entry, member, rfl⟩
  · rintro ⟨entry, member, rfl⟩
    exact ⟨entry, ⟨member, listed⟩, rfl⟩

theorem getBalance_of_absent {memberId : ℕ}
    (absent : memberId ∉ db.ledger.contents.map LedgerEntry.memberId) :
    getBalance db memberId = 0 := by
  have none : (db.ledger.contents.filter fun entry => entry.memberId = memberId) = [] := by
    rw [List.filter_eq_nil_iff]
    intro entry member mine
    exact absent (of_decide_eq_true mine ▸ List.mem_map_of_mem member)
  rw [getBalance, none]
  rfl

/-- The grouped sum, with zero for members without entries, is the sum of each member. -/
theorem get?_getBalances (db : Db) (memberIds : List ℕ) (memberId : ℕ) :
    Tally.get? (getBalances db memberIds) memberId =
      if memberId ∈ memberIds then some (getBalance db memberId) else none := by
  by_cases nobody : memberIds = []
  · simp [getBalances, nobody, Tally.get?]
  rw [getBalances, if_neg nobody, Tally.get?_foldl_set (nodup_balanceRows memberIds),
    Tally.get?_zeros]
  by_cases listed : memberId ∈ memberIds
  · rw [if_pos listed, if_pos listed, get?_balanceRows listed]
    split
    · rfl
    · rename_i absent
      rw [getBalance_of_absent absent]
      rfl
  · have unlisted : Tally.get? (balanceRows db memberIds) memberId = none := by
      rw [← Option.not_isSome_iff_eq_none, Tally.get?_isSome_iff, balanceRows, List.map_map]
      intro found
      obtain ⟨owner, grouped, rfl⟩ := List.mem_map.mp found
      obtain ⟨entry, kept, rfl⟩ := List.mem_map.mp (List.mem_dedup.mp grouped)
      exact listed (of_decide_eq_true (List.mem_filter.mp kept).2)
    rw [if_neg listed, if_neg listed, unlisted]
    rfl

theorem get_getBalances {memberIds : List ℕ} {memberId : ℕ} (listed : memberId ∈ memberIds) :
    Tally.get (getBalances db memberIds) memberId = getBalance db memberId := by
  rw [Tally.get_eq_getD, get?_getBalances, if_pos listed]
  rfl

/-- One pass over the ledger adds up the profit of each listed member. -/
theorem get_netProfits {memberIds : List ℕ} {memberId : ℕ} (listed : memberId ∈ memberIds) :
    Tally.get (netProfits db memberIds) memberId = netProfit db memberId := by
  have start : Tally.get? (Tally.zeros memberIds) memberId = some 0 := by
    rw [Tally.get?_zeros, if_pos listed]
  have known : memberId ∈ (Tally.zeros memberIds).map Prod.fst := by
    rw [← Tally.get?_isSome_iff, start]
    rfl
  rw [netProfits, Tally.get_foldl_addKnown _ known, Tally.get_eq_getD, start, List.filter_map,
    List.filter_filter, List.map_map, netProfit, Decimal.sum]
  congr 2
  refine List.filter_congr fun entry _ => ?_
  simp

/-- While the keys are integers, the profit is the exact sum. -/
theorem netProfit_stored (keys : ∀ row ∈ db.ledger.rows, row.1 < 2 ^ 31) (owner : ℕ) :
    netProfit db owner = sumOf (fun entry : LedgerEntry =>
      entry.memberId = owner ∧ entry.entryType.countsAsProfit) (fun entry => entry.amount.val)
      db.ledger.contents := by
  have values := @sum_points_exact ((db.ledger.contents.filter fun entry =>
    entry.memberId = owner ∧ entry.entryType.countsAsProfit).map LedgerEntry.amount) ?_
  · rw [List.map_map] at values
    exact values
  · rw [List.length_map]
    refine (List.length_filter_le _ _).trans ?_
    rw [Table.contents, List.length_map]
    exact Table.length_le_of_keys keys

end Passes

end FundPolymarket
