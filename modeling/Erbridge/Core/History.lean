import Erbridge.Core.Machine
import Mathlib.Data.List.Induction

/-!
# What a run leaves behind

A machine forgets how it came to its state.  A statement about what was handed in and handed out along a
run is one about the state and the events together.

* `run_induction` — the invariant rule for such statements: the induction is on the last event.
* `history` — what the steps of a run show, in order.
-/

namespace Erbridge
namespace Core

universe u v w

namespace Machine

variable {σ : Type u} {ε : Type v} {γ : Type w} (M : Machine σ ε)

/-- What holds before the first event, and after one more event whenever it holds before it, holds after
every run. -/
theorem run_induction (P : List ε → σ → Prop) {s t : σ} {es : List ε} (hnil : P [] s)
    (hconcat : ∀ fs u e v, M.run s fs = some u → P fs u → M.step u e = some v → P (fs ++ [e]) v)
    (hrun : M.run s es = some t) : P es t := by
  induction es using List.reverseRecOn generalizing t with
  | nil =>
      obtain rfl : s = t := by simpa using hrun
      exact hnil
  | append_singleton fs e ih =>
      obtain ⟨u, hfs, hstep⟩ := M.run_concat_iff.1 hrun
      exact hconcat fs u e t hfs (ih hfs) hstep

/-- What the steps of the run show, in order; `f` looks at the state before the step. -/
def history (f : σ → ε → List γ) : σ → List ε → List γ
  | _, [] => []
  | s, e :: es => f s e ++ ((M.step s e).map fun t => history f t es).getD []

@[simp] theorem history_nil (f : σ → ε → List γ) (s : σ) : M.history f s [] = [] := rfl

theorem history_cons {f : σ → ε → List γ} {s t : σ} {e : ε} (es : List ε)
    (hstep : M.step s e = some t) : M.history f s (e :: es) = f s e ++ M.history f t es := by
  rw [history, hstep]
  rfl

theorem history_append {f : σ → ε → List γ} {s t : σ} {es : List ε} (fs : List ε)
    (hrun : M.run s es = some t) :
    M.history f s (es ++ fs) = M.history f s es ++ M.history f t fs := by
  induction es generalizing s with
  | nil =>
      obtain rfl : s = t := by simpa using hrun
      rfl
  | cons e es ih =>
      obtain ⟨u, hstep, hrest⟩ := M.run_cons_iff.1 hrun
      rw [List.cons_append, M.history_cons _ hstep, M.history_cons _ hstep, ih hrest,
        List.append_assoc]

theorem history_concat {f : σ → ε → List γ} {s t u : σ} {es : List ε} {e : ε}
    (hrun : M.run s es = some t) (hstep : M.step t e = some u) :
    M.history f s (es ++ [e]) = M.history f s es ++ f t e := by
  rw [M.history_append _ hrun, M.history_cons _ hstep, history_nil, List.append_nil]

end Machine

end Core
end Erbridge
