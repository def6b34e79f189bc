import Mathlib.Data.List.Basic

/-!
# Numbered logs

Two parties that number what they do the same way, starting from one number, can be compared by what
they have logged: a log entry is a pair, and `Numbered R k` says that the entries are related by `R`
at the numbers `k`, `k + 1`, and so on.

* `numbered_append_iff` takes such a log apart.
* `prefix_of_undoes`, `append_prefix_of_logged` — when one log is a prefix of another.
-/

namespace Erbridge
namespace Core

universe u v

variable {α : Type u} {β : Type v}

/-- The entries are related by `R`, numbered from `k` on. -/
def Numbered (R : Nat → α → β → Prop) : Nat → List (α × β) → Prop
  | _, [] => True
  | k, x :: xs => R k x.1 x.2 ∧ Numbered R (k + 1) xs

variable {R S : Nat → α → β → Prop}

@[simp] theorem numbered_nil (k : Nat) : Numbered R k [] := trivial

theorem numbered_cons_iff {k : Nat} {x : α × β} {xs : List (α × β)} :
    Numbered R k (x :: xs) ↔ R k x.1 x.2 ∧ Numbered R (k + 1) xs := Iff.rfl

theorem numbered_append_iff {k : Nat} {xs ys : List (α × β)} :
    Numbered R k (xs ++ ys) ↔ Numbered R k xs ∧ Numbered R (k + xs.length) ys := by
  induction xs generalizing k with
  | nil => simp
  | cons x xs ih =>
      have hlen : k + 1 + xs.length = k + (x :: xs).length := by
        simp only [List.length_cons]
        omega
      rw [List.cons_append, numbered_cons_iff, numbered_cons_iff, ih, hlen, and_assoc]

/-- If the second components of one log start another log, and each number undoes what the other log
did under it, then the whole log starts the other. -/
theorem prefix_of_undoes (h : ∀ k a a' b, R k a b → S k a' b → a' = a) {k : Nat}
    {xs ys : List (α × β)} (hx : Numbered R k xs) (hy : Numbered S k ys)
    (hp : ys.map Prod.snd <+: xs.map Prod.snd) : ys <+: xs := by
  induction ys generalizing xs k with
  | nil => exact List.nil_prefix
  | cons y ys ih =>
      cases xs with
      | nil =>
          obtain ⟨tail, htail⟩ := hp
          cases htail
      | cons x xs =>
          rw [List.map_cons, List.map_cons, List.cons_prefix_cons] at hp
          obtain ⟨hsnd, hrest⟩ := hp
          have hR : R k x.1 y.2 := by
            rw [hsnd]
            exact hx.1
          have hxy : y = x := Prod.ext (h k _ _ _ hR hy.1) hsnd
          rw [hxy]
          exact (List.prefix_cons_inj x).2 (ih hx.2 hy.2 hrest)

/-- If every number that can be taken is the place of its entry in a log, then what was taken goes on
along the log. -/
theorem append_prefix_of_logged {xs : List (α × β)}
    (h : ∀ k a b, S k a b → xs[k]? = some (a, b)) {ys zs : List (α × β)} (hy : ys <+: xs)
    (hz : Numbered S ys.length zs) : ys ++ zs <+: xs := by
  induction zs generalizing ys with
  | nil => simpa using hy
  | cons z zs ih =>
      obtain ⟨tail, rfl⟩ := hy
      have hget : (ys ++ tail)[ys.length]? = some z := h _ _ _ hz.1
      rw [List.getElem?_append_right (Nat.le_refl _), Nat.sub_self] at hget
      cases tail with
      | nil => cases hget
      | cons t tail =>
          obtain rfl : t = z := by simpa using hget
          have hlen : (ys ++ [t]).length = ys.length + 1 := by simp
          have hys : ys ++ [t] <+: ys ++ t :: tail := ⟨tail, by simp⟩
          have hzs := ih hys (by rw [hlen]; exact hz.2)
          simpa using hzs

end Core
end Erbridge
