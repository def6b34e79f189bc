import Mathlib.Algebra.GroupWithZero.Nat
import Mathlib.Data.List.Basic
import Mathlib.Algebra.BigOperators.Group.List.Basic
import Mathlib.Algebra.Order.BigOperators.Group.List
import Mathlib.Algebra.Order.Group.Nat
import Mathlib.Data.List.Nodup
import Mathlib.Data.List.Perm.Subperm

/-!
# Tallies over a list of parties

A system of any number of parties keeps them in a list; a step replaces one entry or appends one.
What the parties hold together is a count or a sum over the list.

* `countP_set_add` and `sum_map_set_add` — what replacing one entry does to a count and to a sum.
* `countP_set_of_eq` — nothing, if the entry counts as before.
* `getElem?_set_eq_some` and `getElem?_concat_eq_some` — an entry of the new list is the new one or an
  old one; `getElem?_of_set` and `getElem?_of_concat`, if it is not the new one.
* `exists_of_getElem?_set` — what the new entry does not bring was there before.
* `exists_split` — where the entry stands.
* `countP_eraseIdx_add` — the count is that of the others and of the entry itself.
* `filterMap_set_of_eq`, `nodup_filterMap_concat`, `eq_of_nodup_filterMap` — entries known by a key that
  no two of them share.
* `sum_map_key_add`, `sum_map_filter_key_add`, `sum_map_le_filterMap`, `sum_map_le_of_nodup` — sums
  over entries and over their keys.
-/

namespace Erbridge
namespace Core
namespace Tally

universe u

variable {α : Type u} {l : List α} {i : Nat} {a : α}

/-- The old entry leaves the sum and the new one joins it. -/
theorem sum_map_set_add (f : α → Nat) (b : α) (h : l[i]? = some a) :
    ((l.set i b).map f).sum + f a = (l.map f).sum + f b := by
  induction l generalizing i with
  | nil => simp at h
  | cons c l ih =>
      cases i with
      | zero =>
          obtain rfl : c = a := by simpa using h
          simp only [List.set_cons_zero, List.map_cons, List.sum_cons]
          omega
      | succ i =>
          have hrest := ih (i := i) (by simpa using h)
          simp only [List.set_cons_succ, List.map_cons, List.sum_cons]
          omega

/-- The count is the sum of the indicator. -/
theorem countP_eq_sum_map (p : α → Bool) (l : List α) :
    l.countP p = (l.map fun x => (p x).toNat).sum := by
  induction l with
  | nil => rfl
  | cons c l ih =>
      rw [List.countP_cons, ih, List.map_cons, List.sum_cons]
      cases p c <;> simp [Nat.add_comm]

/-- The old entry leaves the count if it was in it, and the new one joins it if it belongs there. -/
theorem countP_set_add (p : α → Bool) (b : α) (h : l[i]? = some a) :
    (l.set i b).countP p + (p a).toNat = l.countP p + (p b).toNat := by
  rw [countP_eq_sum_map, countP_eq_sum_map]
  exact sum_map_set_add _ b h

theorem countP_set_of_eq {p : α → Bool} {b : α} (h : l[i]? = some a) (heq : p b = p a) :
    (l.set i b).countP p = l.countP p := by
  have hcount := countP_set_add p b h
  rw [heq] at hcount
  omega

/-- An entry of the list after the replacement is the new one, or another one of the list before. -/
theorem getElem?_set_eq_some {b c : α} {j : Nat} (h : (l.set i b)[j]? = some c) :
    (j = i ∧ c = b) ∨ (j ≠ i ∧ l[j]? = some c) := by
  rw [List.getElem?_set] at h
  split at h
  · rename_i hij
    split at h
    · exact Or.inl ⟨hij.symm, (Option.some.inj h).symm⟩
    · cases h
  · rename_i hij
    exact Or.inr ⟨fun heq => hij heq.symm, h⟩

/-- An entry of the list after one is appended is one of the list before, or the new one. -/
theorem getElem?_concat_eq_some {b c : α} (h : (l ++ [b])[i]? = some c) :
    l[i]? = some c ∨ (i = l.length ∧ c = b) := by
  rcases Nat.lt_trichotomy i l.length with hlt | heq | hgt
  · rw [List.getElem?_append_left hlt] at h
    exact Or.inl h
  · rw [heq, List.getElem?_concat_length] at h
    exact Or.inr ⟨heq, (Option.some.inj h).symm⟩
  · rw [List.getElem?_eq_none (by simp; omega)] at h
    cases h

/-- What is not the new entry was there before. -/
theorem getElem?_of_set {b c : α} {j : Nat} (h : (l.set i b)[j]? = some c) (hne : b ≠ c) :
    l[j]? = some c :=
  (getElem?_set_eq_some h).elim (fun hnew => absurd hnew.2.symm hne) And.right

theorem getElem?_of_concat {b c : α} (h : (l ++ [b])[i]? = some c) (hne : b ≠ c) :
    l[i]? = some c :=
  (getElem?_concat_eq_some h).resolve_right fun hnew => hne hnew.2.symm

/-- The entry that a replacement is about stands between those before it and those after it. -/
theorem exists_split (h : l[i]? = some a) :
    ∃ l₁ l₂, l = l₁ ++ a :: l₂ ∧ ∀ b, l.set i b = l₁ ++ b :: l₂ := by
  obtain ⟨hi, rfl⟩ := List.getElem?_eq_some_iff.1 h
  refine ⟨l.take i, l.drop (i + 1), ?_, fun b => List.set_eq_take_append_cons_drop.trans (if_pos hi)⟩
  rw [← List.drop_eq_getElem_cons hi, List.take_append_drop]

/-- What counts is in the list. -/
theorem one_le_countP {p : α → Bool} (h : l[i]? = some a) (hp : p a = true) : 1 ≤ l.countP p :=
  List.countP_pos_iff.2 ⟨a, List.mem_of_getElem? h, hp⟩

/-- The count is that of the others and of the entry itself. -/
theorem countP_eraseIdx_add (p : α → Bool) (h : l[i]? = some a) :
    (l.eraseIdx i).countP p + (p a).toNat = l.countP p := by
  induction l generalizing i with
  | nil => simp at h
  | cons c l ih =>
      cases i with
      | zero =>
          obtain rfl : c = a := by simpa using h
          rw [List.eraseIdx_cons_zero, List.countP_cons]
          cases p c <;> simp
      | succ i =>
          have hrest := ih (i := i) (by simpa using h)
          rw [List.eraseIdx_cons_succ, List.countP_cons, List.countP_cons]
          omega

/-- What holds of all entries and of the new one holds of all entries after the replacement. -/
theorem forall_mem_set {P : α → Prop} {b : α} (h : ∀ x ∈ l, P x) (hb : P b) : ∀ x ∈ l.set i b, P x := by
  intro x hx
  rcases List.mem_or_eq_of_mem_set hx with hold | rfl
  · exact h x hold
  · exact hb

/-- An entry of some kind stays in the list, or is replaced by one of the kind. -/
theorem exists_mem_set {P : α → Prop} {b : α} (hi : l[i]? = some a) (hb : P a → P b)
    (h : ∃ x ∈ l, P x) : ∃ x ∈ l.set i b, P x := by
  obtain ⟨l₁, l₂, rfl, hset⟩ := exists_split hi
  rw [hset]
  obtain ⟨x, hx, hP⟩ := h
  rw [List.mem_append, List.mem_cons] at hx
  rcases hx with hx | rfl | hx
  · exact ⟨x, List.mem_append_left _ hx, hP⟩
  · exact ⟨b, by simp, hb hP⟩
  · exact ⟨x, List.mem_append_right _ (List.mem_cons_of_mem _ hx), hP⟩

/-! ### Entries with keys -/

variable {κ : Type*}

/-- If the new entry has under `f` what the old one had, or nothing, then whatever an entry of the new
list has under `f` was there before. -/
theorem exists_of_getElem?_set {f : α → Option κ} {b c : α} {x : κ} {j : Nat} (h : l[i]? = some a)
    (hj : (l.set i b)[j]? = some c) (hb : f b = none ∨ f b = f a) (hc : f c = some x) :
    ∃ d, l[j]? = some d ∧ f d = some x := by
  rcases getElem?_set_eq_some hj with ⟨rfl, rfl⟩ | ⟨-, hold⟩
  · rcases hb with hb | hb
    · rw [hb] at hc
      cases hc
    · exact ⟨a, h, hb ▸ hc⟩
  · exact ⟨c, hold, hc⟩

theorem filterMap_set_of_eq {g : α → Option κ} {b : α} (h : l[i]? = some a) (heq : g b = g a) :
    (l.set i b).filterMap g = l.filterMap g := by
  obtain ⟨l₁, l₂, rfl, hset⟩ := exists_split h
  rw [hset, List.filterMap_append, List.filterMap_append]
  simp only [List.filterMap_cons, heq]

/-- An entry with a key of its own joins them. -/
theorem nodup_filterMap_concat {g : α → Option κ} {b : α} (hl : (l.filterMap g).Nodup)
    (hb : ∀ k, g b = some k → ∀ x ∈ l, g x ≠ some k) : ((l ++ [b]).filterMap g).Nodup := by
  rw [List.filterMap_append]
  cases hkey : g b with
  | none =>
      rw [List.filterMap_cons_none hkey, List.filterMap_nil, List.append_nil]
      exact hl
  | some k =>
      rw [List.filterMap_cons_some hkey, List.filterMap_nil, ← List.concat_eq_append]
      refine List.Nodup.concat (fun hk => ?_) hl
      obtain ⟨x, hx, hxk⟩ := List.mem_filterMap.1 hk
      exact hb k hkey x hx hxk

/-- Where no two entries share a key, the key says where the entry is. -/
theorem eq_of_nodup_filterMap {g : α → Option κ} {j : Nat} {b : α} {k : κ}
    (hl : (l.filterMap g).Nodup) (hi : l[i]? = some a) (hj : l[j]? = some b)
    (ha : g a = some k) (hb : g b = some k) : i = j := by
  have hpair := List.pairwise_filterMap.1 hl
  rw [List.pairwise_iff_getElem] at hpair
  obtain ⟨hi', rfl⟩ := List.getElem?_eq_some_iff.1 hi
  obtain ⟨hj', rfl⟩ := List.getElem?_eq_some_iff.1 hj
  rcases Nat.lt_trichotomy i j with hlt | heq | hgt
  · exact absurd rfl (hpair i j hi' hj' hlt k ha k hb)
  · exact heq
  · exact absurd rfl (hpair j i hj' hi' hgt k hb k ha)

/-- What is added at one key is added to the sum, if an entry has this key. -/
theorem sum_map_key_add {key : α → κ} {f g : κ → Nat} {k : κ} {n : Nat} (hl : (l.map key).Nodup)
    (hk : k ∈ l.map key) (hadd : g k = f k + n) (hrest : ∀ j, j ≠ k → g j = f j) :
    (l.map fun x => g (key x)).sum = (l.map fun x => f (key x)).sum + n := by
  induction l with
  | nil => simp at hk
  | cons c l ih =>
      rw [List.map_cons, List.nodup_cons] at hl
      simp only [List.map_cons, List.sum_cons]
      rcases List.mem_cons.1 hk with rfl | htail
      · have hsame : (l.map fun x => g (key x)) = l.map fun x => f (key x) :=
          List.map_congr_left fun x hx => hrest _ fun heq => hl.1 (heq ▸ List.mem_map_of_mem hx)
        rw [hsame, hadd]
        omega
      · have hne : key c ≠ k := fun heq => hl.1 (heq.symm ▸ htail)
        rw [ih hl.2 htail, hrest _ hne]
        omega

/-- The entry with this key leaves the sum. -/
theorem sum_map_filter_key_add [DecidableEq κ] {key : α → κ} (f : α → Nat) (hl : (l.map key).Nodup)
    (ha : a ∈ l) : ((l.filter fun x => key x ≠ key a).map f).sum + f a = (l.map f).sum := by
  induction l with
  | nil => cases ha
  | cons c l ih =>
      rw [List.map_cons, List.nodup_cons] at hl
      rcases List.mem_cons.1 ha with rfl | htail
      · have hall : (l.filter fun x => key x ≠ key a) = l := by
          rw [List.filter_eq_self]
          intro x hx
          have hne : key x ≠ key a := fun heq => hl.1 (heq ▸ List.mem_map_of_mem hx)
          simpa using hne
        rw [List.filter_cons_of_neg (by simp), hall, List.map_cons, List.sum_cons]
        omega
      · have hne : key c ≠ key a := fun heq => hl.1 (heq ▸ List.mem_map_of_mem htail)
        rw [List.filter_cons_of_pos (by simpa using hne), List.map_cons, List.sum_cons,
          List.map_cons, List.sum_cons]
        have hrest := ih hl.2 htail
        omega

/-- Where an entry that is not zero has a key, and no more than the key is worth, the sum is at most that
over the keys. -/
theorem sum_map_le_filterMap {f : α → Nat} {g : α → Option κ} {v : κ → Nat}
    (h : ∀ x ∈ l, f x ≠ 0 → ∃ k, g x = some k ∧ f x ≤ v k) :
    (l.map f).sum ≤ ((l.filterMap g).map v).sum := by
  induction l with
  | nil => simp
  | cons c l ih =>
      have hrest := ih fun x hx => h x (List.mem_cons_of_mem _ hx)
      rw [List.map_cons, List.sum_cons]
      by_cases hc : f c = 0
      · cases hg : g c with
        | none =>
            rw [List.filterMap_cons_none hg]
            omega
        | some k =>
            rw [List.filterMap_cons_some hg, List.map_cons, List.sum_cons]
            omega
      · obtain ⟨k, hg, hle⟩ := h c List.mem_cons_self hc
        rw [List.filterMap_cons_some hg, List.map_cons, List.sum_cons]
        omega

/-- A sum over some of the keys is not more than that over all of them. -/
theorem sum_map_le_of_nodup {ks ms : List κ} (f : κ → Nat) (hks : ks.Nodup) (hsub : ks ⊆ ms) :
    (ks.map f).sum ≤ (ms.map f).sum := by
  obtain ⟨ls, hperm, hle⟩ := List.subperm_of_subset hks hsub
  rw [← (hperm.map f).sum_eq]
  exact List.Sublist.sum_le_sum (hle.map f) fun _ _ => Nat.zero_le _

end Tally

end Core
end Erbridge
