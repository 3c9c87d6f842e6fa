import Mathlib.Data.List.Perm.Basic
import Mathlib.Data.List.Nodup

set_option autoImplicit false

/- A batch of items that are recorded under keys of their own. A run skips the keys
that are on record, so a batch that was interrupted can be run again. -/
namespace KeyedBatch

variable {κ A : Type} {due record : List (κ × A)}

/-- Some items of the batch are on record, each once, and nothing else is. -/
structure Interrupted (due record : List (κ × A)) : Prop where
  items : ∀ item ∈ record, item ∈ due
  once : (record.map Prod.fst).Nodup

variable [DecidableEq κ]

/-- The items whose keys are not on record. -/
def missing (due record : List (κ × A)) : List (κ × A) :=
  due.filter fun item => item.1 ∉ record.map Prod.fst

def run (due record : List (κ × A)) : List (κ × A) := record ++ missing due record

theorem mem_missing {item : κ × A} :
    item ∈ missing due record ↔ item ∈ due ∧ item.1 ∉ record.map Prod.fst := by
  simp only [missing, List.mem_filter, decide_eq_true_eq]

/-- From wherever the batch was interrupted, a run completes it. -/
theorem Interrupted.run_perm (interrupted : Interrupted due record)
    (keys : (due.map Prod.fst).Nodup) : (run due record).Perm due := by
  have dueNodup : due.Nodup := keys.of_map Prod.fst
  have runNodup : (run due record).Nodup := by
    refine List.nodup_append.mpr ⟨interrupted.once.of_map Prod.fst, dueNodup.filter _, ?_⟩
    rintro item recorded other fresh rfl
    exact (mem_missing.mp fresh).2 (List.mem_map_of_mem recorded)
  refine (List.perm_ext_iff_of_nodup runNodup dueNodup).mpr fun item => ?_
  rw [run, List.mem_append, mem_missing]
  constructor
  · rintro (recorded | fresh)
    · exact interrupted.items item recorded
    · exact fresh.1
  · intro member
    by_cases known : item.1 ∈ record.map Prod.fst
    · obtain ⟨other, recorded, sameKey⟩ := List.mem_map.mp known
      have same := List.inj_on_of_nodup_map keys (interrupted.items other recorded) member sameKey
      exact .inl (same ▸ recorded)
    · exact .inr ⟨member, known⟩

theorem missing_of_perm (complete : record.Perm due) : missing due record = [] := by
  refine List.filter_eq_nil_iff.mpr fun item member => ?_
  simpa using ⟨item.2, complete.mem_iff.mpr member⟩

/-- Each item of a completed batch is on record exactly once under its key. -/
theorem filter_key (keys : (due.map Prod.fst).Nodup) (complete : record.Perm due) {item : κ × A}
    (member : item ∈ due) : record.filter (fun other => other.1 = item.1) = [item] := by
  have recordKeys : (record.map Prod.fst).Nodup := (complete.map Prod.fst).nodup_iff.mpr keys
  have recorded := complete.mem_iff.mpr member
  apply List.perm_singleton.mp
  refine (List.perm_ext_iff_of_nodup ((recordKeys.of_map Prod.fst).filter _)
    (List.nodup_singleton item)).mpr fun other => ?_
  rw [List.mem_filter, List.mem_singleton, decide_eq_true_eq]
  constructor
  · rintro ⟨listed, sameKey⟩
    exact List.inj_on_of_nodup_map recordKeys listed recorded sameKey
  · rintro rfl
    exact ⟨recorded, rfl⟩

end KeyedBatch
