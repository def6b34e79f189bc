import Mathlib.Data.List.Basic

/-!
# Amending a list

An edit of a list that keeps, changes or drops each entry on its own and then adds entries at the end.

* `amend_amend` — two amendments, one after the other.
* `observed_amend_perm` — they can be made in either order, up to the order of the entries, as far as an
  observation of the entries goes.
* `filter_amend` — the entries that are neither changed nor added stay as they were.
-/

namespace Erbridge
namespace Core

universe u v

variable {α : Type u} {β : Type v}

/-- Each entry is kept, changed or dropped, and `added` comes at the end. -/
def amend (keep : α → Option α) (added l : List α) : List α := l.filterMap keep ++ added

@[simp] theorem amend_some (added l : List α) : amend some added l = l ++ added := by
  rw [amend, List.filterMap_some]

@[simp] theorem amend_map (f : α → α) (added l : List α) :
    amend (fun x => some (f x)) added l = l.map f ++ added := by
  rw [amend, List.filterMap_eq_map']

@[simp] theorem amend_guard (p : α → Bool) (added l : List α) :
    amend (Option.guard p) added l = l.filter p ++ added := by
  rw [amend, List.filterMap_eq_filter]

theorem amend_amend (f g : α → Option α) (a b l : List α) :
    amend g b (amend f a l) = l.filterMap (fun x => (f x).bind g) ++ (a.filterMap g ++ b) := by
  simp only [amend, List.filterMap_append, List.filterMap_filterMap, List.append_assoc]

/-- What an observation makes of two amendments in a row. -/
theorem filterMap_amend_amend {f g : α → Option α} {p : α → Option β} {a b l : List α}
    (ha : ∀ x ∈ a, (g x).bind p = p x) :
    (amend g b (amend f a l)).filterMap p
      = l.filterMap (fun x => ((f x).bind g).bind p) ++ (a.filterMap p ++ b.filterMap p) := by
  rw [amend_amend, List.filterMap_append, List.filterMap_append, List.filterMap_filterMap,
    List.filterMap_filterMap, List.filterMap_congr ha]

/-- Amendments that do not touch each other's entries can be exchanged. -/
theorem observed_amend_perm {f g : α → Option α} {p : α → Option β} {a b l : List α}
    (hcomm : ∀ x ∈ l, ((f x).bind g).bind p = ((g x).bind f).bind p)
    (ha : ∀ x ∈ a, (g x).bind p = p x) (hb : ∀ x ∈ b, (f x).bind p = p x) :
    ((amend g b (amend f a l)).filterMap p).Perm ((amend f a (amend g b l)).filterMap p) := by
  rw [filterMap_amend_amend ha, filterMap_amend_amend hb, List.filterMap_congr hcomm]
  exact List.Perm.append_left _ List.perm_append_comm

theorem filter_amend {keep : α → Option α} {q : α → Bool} {added l : List α}
    (hkept : ∀ x ∈ l, q x = true → keep x = some x)
    (hchanged : ∀ x y, keep x = some y → q y = true → q x = true)
    (hadded : ∀ x ∈ added, q x = false) : (amend keep added l).filter q = l.filter q := by
  have hnone : added.filter q = [] :=
    List.filter_eq_nil_iff.2 fun x hx => by simp [hadded x hx]
  rw [amend, List.filter_append, hnone, List.append_nil]
  induction l with
  | nil => rfl
  | cons x xs ih =>
      have hrest := ih fun y hy => hkept y (List.mem_cons_of_mem _ hy)
      cases hq : q x with
      | true =>
          rw [List.filterMap_cons_some (hkept x List.mem_cons_self hq), List.filter_cons_of_pos hq,
            List.filter_cons_of_pos hq, hrest]
      | false =>
          rw [List.filter_cons_of_neg (by simp [hq]), ← hrest]
          cases hkeep : keep x with
          | none => rw [List.filterMap_cons_none hkeep]
          | some y =>
              have hqy : ¬q y = true := fun hqy => by
                rw [hchanged x y hkeep hqy] at hq
                cases hq
              rw [List.filterMap_cons_some hkeep, List.filter_cons_of_neg hqy]

end Core
end Erbridge
