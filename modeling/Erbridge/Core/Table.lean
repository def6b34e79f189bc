import Mathlib.Data.List.AList

/-!
# Tables

Finite maps with unique keys: Mathlib's association lists at a constant value type, with the one
operation that they lack, `retain`.

* `retain` keeps the entries that pass a test, `dropped` lists the values of the others.
* `lookup_retain_eq_some_iff`, `mem_dropped_iff`, `lookup_insert_eq_some_iff` and
  `lookup_erase_eq_some_iff` say what each operation does to a lookup.
-/

namespace Erbridge
namespace Core

universe u v

/-- A finite map from `κ` to `α`. -/
abbrev Table (κ : Type u) (α : Type v) := AList fun _ : κ => α

namespace Table

variable {κ : Type u} {α : Type v} [DecidableEq κ]

/-- Keep the entries that pass the test. -/
def retain (keep : κ → α → Bool) (t : Table κ α) : Table κ α where
  entries := t.entries.filter fun e => keep e.1 e.2
  nodupKeys := t.nodupKeys.sublist List.filter_sublist

/-- The values of the entries that `retain` does not keep. -/
def dropped (keep : κ → α → Bool) (t : Table κ α) : List α :=
  (t.entries.filter fun e => !keep e.1 e.2).map Sigma.snd

theorem lookup_eq_some_iff {t : Table κ α} {k : κ} {v : α} :
    t.lookup k = some v ↔ (⟨k, v⟩ : Sigma fun _ : κ => α) ∈ t.entries :=
  AList.mem_lookup_iff

theorem lookup_retain_eq_some_iff {keep : κ → α → Bool} {t : Table κ α} {k : κ} {v : α} :
    (t.retain keep).lookup k = some v ↔ t.lookup k = some v ∧ keep k v = true := by
  rw [lookup_eq_some_iff, lookup_eq_some_iff]
  exact List.mem_filter

theorem lookup_retain {keep : κ → α → Bool} {t : Table κ α} {k : κ} :
    (t.retain keep).lookup k = (t.lookup k).filter (keep k) := by
  ext v
  rw [lookup_retain_eq_some_iff, Option.filter_eq_some_iff]

theorem mem_dropped_iff {keep : κ → α → Bool} {t : Table κ α} {v : α} :
    v ∈ t.dropped keep ↔ ∃ k, t.lookup k = some v ∧ keep k v = false := by
  simp only [dropped, List.mem_map, List.mem_filter, lookup_eq_some_iff, Bool.not_eq_true']
  constructor
  · rintro ⟨⟨k, w⟩, ⟨hmem, hkeep⟩, rfl⟩
    exact ⟨k, hmem, hkeep⟩
  · rintro ⟨k, hmem, hkeep⟩
    exact ⟨⟨k, v⟩, ⟨hmem, hkeep⟩, rfl⟩

theorem lookup_insert_eq_some_iff {t : Table κ α} {k k' : κ} {v w : α} :
    AList.lookup k' (AList.insert k v t) = some w ↔
      (k' = k ∧ w = v) ∨ (k' ≠ k ∧ t.lookup k' = some w) := by
  by_cases hk : k' = k
  · subst hk
    rw [AList.lookup_insert]
    simp [eq_comm]
  · rw [AList.lookup_insert_ne hk]
    simp [hk]

theorem lookup_erase_eq_some_iff {t : Table κ α} {k k' : κ} {w : α} :
    AList.lookup k' (AList.erase k t) = some w ↔ k' ≠ k ∧ t.lookup k' = some w := by
  by_cases hk : k' = k
  · subst hk
    rw [AList.lookup_erase]
    simp
  · rw [AList.lookup_erase_ne hk]
    simp [hk]

end Table

end Core
end Erbridge
