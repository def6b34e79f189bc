import Erbridge.Core.Machine

/-!
# What a machine can still reach

A machine never has to get stuck before its goal, where from each state that satisfies an invariant and
has not reached the goal some step keeps the invariant and makes a natural number smaller.

* `run_of_progress` — from every such state a run of chosen events leads to the goal, and how long it is.
-/

namespace Erbridge
namespace Core
namespace Machine

universe u v

variable {σ : Type u} {ε : Type v} (M : Machine σ ε)

/-- The rule for progress: `P` is kept, `left` gets smaller, and the events are all in `Own`. -/
theorem run_of_progress (P Goal : σ → Prop) (Own : ε → Prop) (left : σ → Nat)
    (hprogress : ∀ s, P s → ¬Goal s → ∃ e t, Own e ∧ M.step s e = some t ∧ P t ∧ left t < left s)
    {s : σ} (hs : P s) :
    ∃ es t, (∀ e ∈ es, Own e) ∧ es.length ≤ left s ∧ M.run s es = some t ∧ P t ∧ Goal t := by
  induction hn : left s using Nat.strongRecOn generalizing s with
  | ind n ih =>
      by_cases hgoal : Goal s
      · exact ⟨[], s, by simp, Nat.zero_le _, rfl, hs, hgoal⟩
      · obtain ⟨e, t, hown, hstep, ht, hlt⟩ := hprogress s hs hgoal
        obtain ⟨es, u, hes, hlen, hrun, hu, hreached⟩ := ih (left t) (by omega) ht rfl
        refine ⟨e :: es, u, ?_, ?_, M.run_cons_iff.2 ⟨t, hstep, hrun⟩, hu, hreached⟩
        · intro f hf
          rcases List.mem_cons.1 hf with rfl | hf
          · exact hown
          · exact hes f hf
        · rw [List.length_cons]
          omega

end Machine
end Core
end Erbridge
