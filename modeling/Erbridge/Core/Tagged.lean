import Mathlib.Data.List.Count
import Mathlib.Data.List.Perm.Basic

/-!
# Logs that several parties write to

An entry of such a log is tagged with the party it is from.  Two logs that parties write to in their
own order, but that are interleaved in different ways, agree on what each party wrote.

* `ownOf` — the entries of one party, in order.
* `perm_of_forall_ownOf_eq` — if the logs agree for every party, they are permutations of one another.
* `map_snd_filter_eq_flatMap` — a log whose parties write one after another is their shares, one after
  another.
-/

namespace Erbridge
namespace Core

universe u v

variable {κ : Type u} {α : Type v} [DecidableEq κ]

/-- What the party `i` has in the log. -/
def ownOf (i : κ) (log : List (κ × α)) : List α :=
  (log.filter fun x => x.1 = i).map Prod.snd

@[simp] theorem ownOf_nil (i : κ) : ownOf i ([] : List (κ × α)) = [] := rfl

@[simp] theorem ownOf_append (i : κ) (l m : List (κ × α)) :
    ownOf i (l ++ m) = ownOf i l ++ ownOf i m := by
  simp [ownOf]

theorem ownOf_cons (i : κ) (x : κ × α) (l : List (κ × α)) :
    ownOf i (x :: l) = if x.1 = i then x.2 :: ownOf i l else ownOf i l := by
  by_cases h : x.1 = i
  · simp [ownOf, h]
  · simp [ownOf, h]

@[simp] theorem ownOf_concat_self (i : κ) (l : List (κ × α)) (a : α) :
    ownOf i (l ++ [(i, a)]) = ownOf i l ++ [a] := by
  simp [ownOf_cons]

@[simp] theorem ownOf_concat_other {i j : κ} (h : j ≠ i) (l : List (κ × α)) (a : α) :
    ownOf i (l ++ [(j, a)]) = ownOf i l := by
  simp [ownOf_cons, h]

/-- **Logs that agree for every party differ in the interleaving only.** -/
theorem perm_of_forall_ownOf_eq {l m : List (κ × α)} (h : ∀ i, ownOf i l = ownOf i m) :
    l.Perm m := by
  classical
  refine List.perm_iff_count.2 fun x => ?_
  have hcount : ∀ log : List (κ × α), log.count x = (ownOf x.1 log).count x.2 := by
    intro log
    induction log with
    | nil => rfl
    | cons y log ih =>
        rw [ownOf_cons, List.count_cons, ih]
        by_cases hparty : y.1 = x.1
        · rw [if_pos hparty, List.count_cons]
          have hiff : (y == x) = (y.2 == x.2) := by
            rw [Bool.eq_iff_iff, beq_iff_eq, beq_iff_eq, Prod.ext_iff]
            exact ⟨fun hboth => hboth.2, fun hsnd => ⟨hparty, hsnd⟩⟩
          rw [hiff]
        · have hne : (y == x) = false := by
            rw [beq_eq_false_iff_ne]
            exact fun heq => hparty (congrArg Prod.fst heq)
          rw [if_neg hparty, hne]
          rfl
  rw [hcount l, hcount m, h]

/-! ## Parties that write one after another -/

theorem ownOf_filter (p : κ → Bool) (i : κ) (l : List (κ × α)) :
    ownOf i (l.filter fun x => p x.1) = if p i then ownOf i l else [] := by
  induction l with
  | nil => simp
  | cons x l ih =>
      by_cases hparty : x.1 = i
      · subst hparty
        cases hp : p x.1 with
        | true => simp_all [ownOf_cons]
        | false => simp_all
      · cases hp : p x.1 <;> simp_all [ownOf_cons]

/-- In a sorted log the last party comes last. -/
theorem eq_filter_append_of_sorted {l : List (Nat × α)} {n : Nat} (hlt : ∀ x ∈ l, x.1 < n + 1)
    (hsorted : l.Pairwise fun x y => x.1 ≤ y.1) :
    l = l.filter (fun x => x.1 < n) ++ l.filter (fun x => x.1 = n) := by
  induction l with
  | nil => rfl
  | cons x l ih =>
      obtain ⟨hle, hsorted⟩ := List.pairwise_cons.1 hsorted
      have hrest := ih (fun y hy => hlt y (List.mem_cons_of_mem _ hy)) hsorted
      have hx := hlt x List.mem_cons_self
      by_cases hlast : x.1 = n
      · -- All that comes behind is of the last party too.
        have hnone : l.filter (fun y => y.1 < n) = [] := by
          refine List.filter_eq_nil_iff.2 fun y hy => ?_
          have hy := hle y hy
          simp only [decide_eq_true_eq]
          omega
        rw [hnone, List.nil_append] at hrest
        rw [List.filter_cons_of_neg (by simp [hlast]), hnone, List.nil_append,
          List.filter_cons_of_pos (by simp [hlast]), ← hrest]
      · have hxlt : x.1 < n := by omega
        rw [List.filter_cons_of_pos (by simp [hxlt]), List.filter_cons_of_neg (by simp [hlast]),
          List.cons_append, ← hrest]

theorem map_snd_eq_flatMap_of_sorted {l : List (Nat × α)} {n : Nat} (hlt : ∀ x ∈ l, x.1 < n)
    (hsorted : l.Pairwise fun x y => x.1 ≤ y.1) :
    l.map Prod.snd = (List.range n).flatMap fun i => ownOf i l := by
  induction n generalizing l with
  | zero =>
      obtain rfl : l = [] := List.eq_nil_iff_forall_not_mem.2 fun x hx => by
        have hx := hlt x hx
        omega
      rfl
  | succ n ih =>
      have hsplit := eq_filter_append_of_sorted hlt hsorted
      have hfront := ih (l := l.filter fun x => x.1 < n) (fun x hx => by
        simpa using (List.mem_filter.1 hx).2) (hsorted.filter _)
      have hown : ∀ i ∈ List.range n, ownOf i (l.filter fun x => x.1 < n) = ownOf i l := by
        intro i hi
        rw [ownOf_filter (fun i => decide (i < n)) i l, if_pos (by simpa using hi)]
      rw [List.range_succ, List.flatMap_append, List.flatMap_singleton]
      conv_lhs => rw [hsplit, List.map_append, hfront]
      rw [List.flatMap_congr hown]
      rfl

/-- **A log whose parties write one after another is their shares, one after another.**  It is enough
that those parties do so that the statement is about. -/
theorem map_snd_filter_eq_flatMap (p : Nat → Bool) {l : List (Nat × α)} {n : Nat}
    (hlt : ∀ x ∈ l, p x.1 = true → x.1 < n)
    (hsorted : (l.filter fun x => p x.1).Pairwise fun x y => x.1 ≤ y.1) :
    (l.filter fun x => p x.1).map Prod.snd
      = ((List.range n).filter p).flatMap fun i => ownOf i l := by
  rw [map_snd_eq_flatMap_of_sorted (n := n) (fun x hx => hlt x (List.mem_filter.1 hx).1
    (List.mem_filter.1 hx).2) hsorted]
  induction List.range n with
  | nil => rfl
  | cons i is ih =>
      rw [List.flatMap_cons, ih, ownOf_filter, List.filter_cons]
      cases hp : p i <;> simp

end Core
end Erbridge
