import Mathlib.Data.List.Nodup
import Mathlib.Data.List.Basic
import Mathlib.Algebra.BigOperators.Group.List.Basic

set_option autoImplicit false

/- Tables with a serial primary key. The rows keep their insertion order; a key
is never handed out twice, also after a deletion. -/
namespace FundPolymarket

/-- Every row has its own key, and the next key is above all of them. -/
structure Table (α : Type) where
  nextId : ℕ
  rows : List (ℕ × α)
  below : ∀ row ∈ rows, row.1 < nextId
  distinct : (rows.map Prod.fst).Nodup

/-- Where no key comes twice, a search by key finds the entry with that key. -/
theorem find?_of_key {α : Type} {entries : List (ℕ × α)} (distinct : (entries.map Prod.fst).Nodup)
    {entry : ℕ × α} (member : entry ∈ entries) :
    entries.find? (fun other => other.1 = entry.1) = some entry := by
  obtain ⟨found, search⟩ :
      ∃ found, entries.find? (fun other => other.1 = entry.1) = some found :=
    Option.isSome_iff_exists.mp (List.find?_isSome.mpr ⟨entry, member, decide_eq_true rfl⟩)
  have key : found.1 = entry.1 := by simpa using List.find?_some search
  rw [search, List.inj_on_of_nodup_map distinct (List.mem_of_find?_eq_some search) member key]

namespace Table

variable {α β : Type}

def empty : Table α := ⟨1, [], by simp, by simp⟩

def get? (table : Table α) (id : ℕ) : Option α :=
  (table.rows.find? fun row => row.1 == id).map Prod.snd

/-- The rows without their keys. -/
def contents (table : Table α) : List α := table.rows.map Prod.snd

def select (table : Table α) (keep : α → Bool) : List (ℕ × α) :=
  table.rows.filter fun row => keep row.2

def insert (table : Table α) (value : α) : Table α where
  nextId := table.nextId + 1
  rows := table.rows ++ [(table.nextId, value)]
  below := by
    intro row member
    rcases List.mem_append.mp member with old | fresh
    · have := table.below row old
      omega
    · simp only [List.mem_singleton] at fresh
      simp [fresh]
  distinct := by
    rw [List.map_append, List.nodup_append]
    refine ⟨table.distinct, by simp, ?_⟩
    intro id old other fresh same
    obtain ⟨row, member, rfl⟩ := List.mem_map.mp old
    have := table.below row member
    simp only [List.map_cons, List.map_nil, List.mem_singleton] at fresh
    omega

def update (table : Table α) (id : ℕ) (set : α → α) : Table α where
  nextId := table.nextId
  rows := table.rows.map fun row => (row.1, if row.1 = id then set row.2 else row.2)
  below := by
    intro row member
    obtain ⟨old, oldMember, rfl⟩ := List.mem_map.mp member
    exact table.below old oldMember
  distinct := by
    simpa [List.map_map, Function.comp_def] using table.distinct

def delete (table : Table α) (id : ℕ) : Table α where
  nextId := table.nextId
  rows := table.rows.filter fun row => row.1 ≠ id
  below := fun row member => table.below row (List.mem_of_mem_filter member)
  distinct := table.distinct.sublist (List.filter_sublist.map _)

theorem mem_rows_iff (table : Table α) (id : ℕ) (value : α) :
    (id, value) ∈ table.rows ↔ table.get? id = some value := by
  constructor
  · intro member
    obtain ⟨found, search⟩ : ∃ found, table.rows.find? (fun row => row.1 == id) = some found :=
      Option.isSome_iff_exists.mp (List.find?_isSome.mpr ⟨_, member, by simp⟩)
    have sameId : found.1 = id := by simpa using List.find?_some search
    have same : found = (id, value) :=
      List.inj_on_of_nodup_map table.distinct (List.mem_of_find?_eq_some search) member sameId
    rw [get?, search, same]
    rfl
  · intro found
    obtain ⟨row, search, rfl⟩ := Option.map_eq_some_iff.mp found
    have sameId : row.1 = id := by simpa using List.find?_some search
    rw [← sameId]
    exact List.mem_of_find?_eq_some search

theorem mem_contents_iff (table : Table α) (value : α) :
    value ∈ table.contents ↔ ∃ id, table.get? id = some value := by
  simp only [contents, List.mem_map, ← mem_rows_iff, Prod.exists, exists_eq_right]

theorem get?_lt {table : Table α} {id : ℕ} {value : α} (found : table.get? id = some value) :
    id < table.nextId :=
  table.below _ ((table.mem_rows_iff id value).mpr found)

@[simp] theorem get?_empty (id : ℕ) : (empty : Table α).get? id = none := rfl

@[simp] theorem contents_empty : (empty : Table α).contents = [] := rfl

theorem get?_insert (table : Table α) (value : α) (id : ℕ) :
    (table.insert value).get? id = if id = table.nextId then some value else table.get? id := by
  apply Option.ext
  intro found
  rw [← mem_rows_iff]
  by_cases fresh : id = table.nextId
  · subst fresh
    have absent : (table.nextId, found) ∉ table.rows := by
      intro member
      have := table.below _ member
      omega
    simp [insert, absent, eq_comm]
  · simp [insert, fresh, mem_rows_iff]

theorem get?_insert_of_some {table : Table α} {id : ℕ} {old : α} (value : α)
    (found : table.get? id = some old) : (table.insert value).get? id = some old := by
  have old := get?_lt found
  rw [get?_insert, if_neg (by omega), found]

@[simp] theorem contents_insert (table : Table α) (value : α) :
    (table.insert value).contents = table.contents ++ [value] := by
  simp [contents, insert]

theorem get?_update (table : Table α) (target : ℕ) (set : α → α) (id : ℕ) :
    (table.update target set).get? id =
      if id = target then (table.get? id).map set else table.get? id := by
  have search : ∀ rows : List (ℕ × α),
      ((rows.map fun row => (row.1, if row.1 = target then set row.2 else row.2)).find?
        fun row => row.1 == id).map Prod.snd =
      if id = target then ((rows.find? fun row => row.1 == id).map Prod.snd).map set
      else (rows.find? fun row => row.1 == id).map Prod.snd := by
    intro rows
    induction rows with
    | nil => simp
    | cons row rows ih =>
        by_cases here : row.1 = id
        · by_cases same : id = target <;> simp [here, same]
        · simpa [here] using ih
  exact search table.rows

theorem mem_contents_update {table : Table α} {id : ℕ} {set : α → α} {value : α}
    (member : value ∈ (table.update id set).contents) :
    ∃ old ∈ table.contents, value = old ∨ value = set old := by
  obtain ⟨row, rowMember, rfl⟩ := List.mem_map.mp member
  obtain ⟨old, oldMember, rfl⟩ := List.mem_map.mp rowMember
  refine ⟨old.2, List.mem_map_of_mem oldMember, ?_⟩
  dsimp only
  split
  · exact .inr rfl
  · exact .inl rfl

theorem get?_mem_contents {table : Table α} {id : ℕ} {value : α}
    (found : table.get? id = some value) : value ∈ table.contents :=
  (table.mem_contents_iff value).mpr ⟨id, found⟩

/-- An update is invisible to whatever it does not change. -/
theorem contents_update_map {set : α → α} {view : α → β}
    (same : ∀ value, view (set value) = view value) (table : Table α) (id : ℕ) :
    (table.update id set).contents.map view = table.contents.map view := by
  simp only [contents, update, List.map_map]
  apply List.map_congr_left
  intro row _
  simp only [Function.comp_apply]
  split <;> simp [same]

/-- Updates of different rows, one after the other. -/
theorem rows_foldl_update {set : β → α → α} {updates : List (ℕ × β)}
    (distinct : (updates.map Prod.fst).Nodup) (table : Table α) :
    (updates.foldl (fun rows entry => rows.update entry.1 (set entry.2)) table).rows =
      table.rows.map fun row => (row.1, ((updates.find? fun entry => entry.1 = row.1).map
        fun entry => set entry.2 row.2).getD row.2) := by
  induction updates generalizing table with
  | nil => simp
  | cons entry updates ih =>
      rw [List.map_cons, List.nodup_cons] at distinct
      rw [List.foldl_cons, ih distinct.2, update, List.map_map]
      apply List.map_congr_left
      intro row _
      by_cases here : row.1 = entry.1
      · have absent : updates.find? (fun other => other.1 = entry.1) = none := by
          rw [List.find?_eq_none]
          intro other member same
          exact distinct.1 (of_decide_eq_true same ▸ List.mem_map_of_mem member)
        simp [here, absent]
      · simp [here, Ne.symm here]

/-- An update that changes nothing. -/
theorem update_of_same {table : Table α} {id : ℕ} {set : α → α}
    (same : ∀ value, table.get? id = some value → set value = value) :
    table.update id set = table := by
  have rows : (table.update id set).rows = table.rows := by
    rw [update]
    refine (List.map_congr_left fun row member => ?_).trans (List.map_id _)
    by_cases here : row.1 = id
    · have found := (table.mem_rows_iff row.1 row.2).mp member
      rw [if_pos here, same row.2 (here ▸ found)]
      rfl
    · rw [if_neg here]
      rfl
  cases table
  simp only [update, mk.injEq, true_and] at rows ⊢
  exact rows

theorem rows_foldl_delete (table : Table α) (ids : List ℕ) :
    (ids.foldl delete table).rows = table.rows.filter fun row => row.1 ∉ ids := by
  induction ids generalizing table with
  | nil => simp
  | cons id ids ih =>
      rw [List.foldl_cons, ih]
      simp only [delete, List.filter_filter]
      apply List.filter_congr
      intro row _
      simp [Bool.and_comm]

/-- Deleting a selection leaves the rows that were not selected, under their keys. -/
theorem rows_foldl_delete_select (table : Table α) (keep : α → Bool) :
    (((table.select keep).map Prod.fst).foldl delete table).rows =
      table.rows.filter fun row => !keep row.2 := by
  rw [rows_foldl_delete]
  apply List.filter_congr
  intro row member
  have selected : row.1 ∈ (table.select keep).map Prod.fst ↔ keep row.2 = true := by
    constructor
    · intro listed
      obtain ⟨other, otherMember, sameId⟩ := List.mem_map.mp listed
      have same : other = row :=
        List.inj_on_of_nodup_map table.distinct (List.mem_of_mem_filter otherMember) member sameId
      rw [← same]
      exact (List.mem_filter.mp otherMember).2
    · intro kept
      exact List.mem_map_of_mem (List.mem_filter.mpr ⟨member, kept⟩)
  by_cases kept : keep row.2 = true
  · simp [selected, kept]
  · simp [selected, kept]

theorem contents_foldl_delete_select (table : Table α) (keep : α → Bool) :
    (((table.select keep).map Prod.fst).foldl delete table).contents =
      table.contents.filter fun value => !keep value := by
  rw [contents, rows_foldl_delete_select, contents, List.filter_map]
  rfl

/-- Inserted rows are invisible to a selection that drops them. -/
theorem rows_foldl_insert {keep : α → Bool} {values : List α}
    (dropped : ∀ value ∈ values, keep value = false) (table : Table α) :
    ((values.foldl insert table).rows.filter fun row => keep row.2) =
      table.rows.filter fun row => keep row.2 := by
  induction values generalizing table with
  | nil => rfl
  | cons value values ih =>
      have gone := dropped value (by simp)
      rw [List.foldl_cons, ih fun other member => dropped other (by simp [member]), insert,
        List.filter_append, List.filter_cons_of_neg (by simp [gone]), List.filter_nil,
        List.append_nil]

/-- A later state of a table: no old key is handed out again, and what a view shows of the
row under it stays the same. -/
structure Continues (view : α → β) (early late : Table α) : Prop where
  nextId_le : early.nextId ≤ late.nextId
  old : ∀ id later, id < early.nextId → late.get? id = some later →
    ∃ row, early.get? id = some row ∧ view later = view row

/-- No row has been deleted. -/
def Retains (early late : Table α) : Prop :=
  ∀ id row, early.get? id = some row → ∃ later, late.get? id = some later

theorem get?_delete (table : Table α) (target id : ℕ) :
    (table.delete target).get? id = if id = target then none else table.get? id := by
  refine Option.ext fun value => ?_
  rw [← mem_rows_iff]
  by_cases same : id = target
  · simp [delete, same]
  · simp [delete, same, mem_rows_iff]

/-- Where the row of an updated table comes from. -/
theorem of_get?_update {table : Table α} {target id : ℕ} {set : α → α} {later : α}
    (found : (table.update target set).get? id = some later) :
    ∃ row, table.get? id = some row ∧ (later = row ∨ later = set row) := by
  rw [get?_update] at found
  split at found
  · obtain ⟨row, foundRow, rfl⟩ := Option.map_eq_some_iff.mp found
    exact ⟨row, foundRow, .inr rfl⟩
  · exact ⟨later, found, .inl rfl⟩

theorem of_get?_delete {table : Table α} {target id : ℕ} {later : α}
    (found : (table.delete target).get? id = some later) : table.get? id = some later := by
  rw [get?_delete] at found
  split at found
  · cases found
  · exact found

namespace Continues

variable {view : α → β} {early middle late : Table α}

theorem refl (table : Table α) : Continues view table table :=
  ⟨Nat.le_refl _, fun _ later _ found => ⟨later, found, rfl⟩⟩

theorem trans (first : Continues view early middle) (second : Continues view middle late) :
    Continues view early late := by
  refine ⟨Nat.le_trans first.nextId_le second.nextId_le, fun id later below found => ?_⟩
  obtain ⟨between, foundBetween, same⟩ :=
    second.old id later (Nat.lt_of_lt_of_le below first.nextId_le) found
  obtain ⟨row, foundRow, sameRow⟩ := first.old id between below foundBetween
  exact ⟨row, foundRow, same.trans sameRow⟩

theorem insert (table : Table α) (value : α) : Continues view table (table.insert value) := by
  refine ⟨Nat.le_succ _, fun id later below found => ⟨later, ?_, rfl⟩⟩
  rwa [get?_insert, if_neg (Nat.ne_of_lt below)] at found

theorem update {set : α → α} (same : ∀ value, view (set value) = view value) (table : Table α)
    (target : ℕ) : Continues view table (table.update target set) := by
  refine ⟨Nat.le_refl _, fun id later _ found => ?_⟩
  obtain ⟨row, foundRow, rfl | rfl⟩ := of_get?_update found
  · exact ⟨_, foundRow, rfl⟩
  · exact ⟨row, foundRow, same row⟩

theorem delete (table : Table α) (target : ℕ) : Continues view table (table.delete target) :=
  ⟨Nat.le_refl _, fun _ later _ found => ⟨later, of_get?_delete found, rfl⟩⟩

end Continues

theorem Retains.trans {early middle late : Table α} (first : Retains early middle)
    (second : Retains middle late) : Retains early late := by
  intro id row found
  obtain ⟨between, foundBetween⟩ := first id row found
  exact second id between foundBetween

theorem Retains.insert (table : Table α) (value : α) : Retains table (table.insert value) :=
  fun _ row found => ⟨row, get?_insert_of_some value found⟩

theorem Retains.update (table : Table α) (target : ℕ) (set : α → α) :
    Retains table (table.update target set) := by
  intro id row found
  rw [get?_update, found]
  split
  · exact ⟨set row, rfl⟩
  · exact ⟨row, rfl⟩

end Table

/-- A table with a unique constraint on a key of its rows. -/
structure UniqueTable {κ : Type} (α : Type) (key : α → κ) extends Table α where
  unique : (rows.map fun row => key row.2).Nodup

namespace UniqueTable

variable {α κ : Type} {key : α → κ}

def empty : UniqueTable α key := ⟨Table.empty, by simp [Table.empty]⟩

/-- An insertion that repeats a key is refused. -/
def insert? [DecidableEq κ] (table : UniqueTable α key) (value : α) :
    Option (UniqueTable α key) :=
  if taken : ∃ row ∈ table.rows, key row.2 = key value then none
  else some
    { table.toTable.insert value with
      unique := by
        rw [Table.insert, List.map_append, List.nodup_append]
        refine ⟨table.unique, by simp, ?_⟩
        intro old member fresh inserted same
        obtain ⟨row, rowMember, rfl⟩ := List.mem_map.mp member
        simp only [List.map_cons, List.map_nil, List.mem_singleton] at inserted
        exact taken ⟨row, rowMember, same.trans inserted⟩ }

/-- Updates may not touch the constrained columns. -/
def update (table : UniqueTable α key) (id : ℕ) (set : α → α)
    (same : ∀ value, key (set value) = key value) : UniqueTable α key :=
  { table.toTable.update id set with
    unique := by
      have keys : (table.toTable.update id set).rows.map (fun row => key row.2) =
          table.rows.map fun row => key row.2 := by
        have := Table.contents_update_map same table.toTable id
        simpa [Table.contents, List.map_map, Function.comp_def] using this
      exact keys ▸ table.unique }

def delete (table : UniqueTable α key) (id : ℕ) : UniqueTable α key :=
  { table.toTable.delete id with
    unique := table.unique.sublist (List.filter_sublist.map _) }

theorem contents_unique (table : UniqueTable α key) : (table.contents.map key).Nodup := by
  simpa [Table.contents, List.map_map, Function.comp_def] using table.unique

theorem exists_insert? [DecidableEq κ] {table : UniqueTable α key} {value : α}
    (fresh : ∀ old ∈ table.contents, key old ≠ key value) :
    ∃ inserted, table.insert? value = some inserted := by
  have free : ¬ ∃ row ∈ table.rows, key row.2 = key value := by
    rintro ⟨row, member, same⟩
    exact fresh row.2 (List.mem_map_of_mem member) same
  exact ⟨_, dif_neg free⟩

theorem update_of_same {table : UniqueTable α key} {id : ℕ} {set : α → α}
    {keyed : ∀ value, key (set value) = key value}
    (same : ∀ value, table.get? id = some value → set value = value) :
    table.update id set keyed = table := by
  have rows := Table.update_of_same same
  cases table
  simp only [update, mk.injEq]
  exact rows

theorem toTable_insert? [DecidableEq κ] {table inserted : UniqueTable α key} {value : α}
    (result : table.insert? value = some inserted) :
    inserted.toTable = table.toTable.insert value := by
  unfold insert? at result
  split at result
  · cases result
  · cases result
    rfl

theorem contents_insert? [DecidableEq κ] {table inserted : UniqueTable α key} {value : α}
    (result : table.insert? value = some inserted) :
    inserted.contents = table.contents ++ [value] := by
  rw [Table.contents, toTable_insert? result]
  exact Table.contents_insert _ _

end UniqueTable

end FundPolymarket
