import Mathlib.Data.List.Basic

/-!
# Executable transition systems

A `Machine` is a partial, executable step function: `step s e = none` says that the event `e` is
not possible in the state `s`.  An interleaving of concurrent parties is then a list of events, and
a statement about *every* interleaving quantifies over all lists `es` with `run s es = some t`.

* `run_cons_iff`, `run_append_iff`, `run_concat_iff` take a run apart.
* `run_invariant` turns what one step preserves into what a whole run preserves.
* `Meets C` says that every step of a run satisfies a condition on the state before the step and on
  the event; `run_invariant_of_meets` is the induction rule for such runs, `meets_iff_forall_step`
  takes it apart, and `forall_reached_iff` says when a property of all states reached is such a
  condition.
* `run_of_simulation` transports runs along an abstraction function.
* `trace` is a run of a component that answers every request; `trace_simulates` carries a relation
  between two such components along a list of requests.
-/

namespace Erbridge
namespace Core

universe u v w x

/-- A transition system given by an executable partial step. -/
structure Machine (σ : Type u) (ε : Type v) where
  step : σ → ε → Option σ

namespace Machine

variable {σ : Type u} {ε : Type v} (M : Machine σ ε)

/-- Take the events in order; `none` as soon as one of them is not possible. -/
def run : σ → List ε → Option σ
  | s, [] => some s
  | s, e :: es => (M.step s e).bind fun t => run t es

@[simp] theorem run_nil (s : σ) : M.run s [] = some s := rfl

theorem run_cons_iff {s u : σ} {e : ε} {es : List ε} :
    M.run s (e :: es) = some u ↔ ∃ t, M.step s e = some t ∧ M.run t es = some u := by
  simp [run, Option.bind_eq_some_iff]

theorem run_append_iff {s u : σ} {es fs : List ε} :
    M.run s (es ++ fs) = some u ↔ ∃ t, M.run s es = some t ∧ M.run t fs = some u := by
  induction es generalizing s with
  | nil => simp
  | cons e es ih =>
      simp only [List.cons_append, run_cons_iff, ih]
      constructor
      · rintro ⟨t, ht, v, hv, hu⟩
        exact ⟨v, ⟨t, ht, hv⟩, hu⟩
      · rintro ⟨v, ⟨t, ht, hv⟩, hu⟩
        exact ⟨t, ht, v, hv, hu⟩

theorem run_concat_iff {s u : σ} {e : ε} {es : List ε} :
    M.run s (es ++ [e]) = some u ↔ ∃ t, M.run s es = some t ∧ M.step t e = some u := by
  simp [run_append_iff, run_cons_iff]

/-- Every step of the run from `s` along the events satisfies `C` in the state before it. -/
def Meets (C : σ → ε → Prop) : σ → List ε → Prop
  | _, [] => True
  | s, e :: es => C s e ∧ ∀ t, M.step s e = some t → Meets C t es

@[simp] theorem meets_nil (C : σ → ε → Prop) (s : σ) : M.Meets C s [] := trivial

theorem meets_cons_iff {C : σ → ε → Prop} {s : σ} {e : ε} {es : List ε} :
    M.Meets C s (e :: es) ↔ C s e ∧ ∀ t, M.step s e = some t → M.Meets C t es := Iff.rfl

theorem meets_cons_of_step {C : σ → ε → Prop} {s t : σ} {e : ε} {es : List ε}
    (hstep : M.step s e = some t) (hC : C s e) (hrest : M.Meets C t es) :
    M.Meets C s (e :: es) := by
  refine ⟨hC, fun u hu => ?_⟩
  rw [hstep] at hu
  obtain rfl := Option.some.inj hu
  exact hrest

theorem meets_append_iff {C : σ → ε → Prop} {s : σ} {es fs : List ε} :
    M.Meets C s (es ++ fs) ↔ M.Meets C s es ∧ ∀ t, M.run s es = some t → M.Meets C t fs := by
  induction es generalizing s with
  | nil => simp
  | cons e es ih =>
      simp only [List.cons_append, meets_cons_iff, run_cons_iff, ih]
      constructor
      · rintro ⟨hC, hrest⟩
        exact ⟨⟨hC, fun t ht => (hrest t ht).1⟩,
          fun u ⟨t, ht, hu⟩ => (hrest t ht).2 u hu⟩
      · rintro ⟨⟨hC, hes⟩, hfs⟩
        exact ⟨hC, fun t ht => ⟨hes t ht, fun u hu => hfs u ⟨t, ht, hu⟩⟩⟩

/-- The invariant rule for runs whose steps all meet a condition. -/
theorem run_invariant_of_meets {C : σ → ε → Prop} (Inv : σ → Prop)
    (hstep : ∀ {s e t}, Inv s → C s e → M.step s e = some t → Inv t)
    {s t : σ} {es : List ε} (hs : Inv s) (hC : M.Meets C s es)
    (hrun : M.run s es = some t) : Inv t := by
  induction es generalizing s with
  | nil =>
      obtain rfl : s = t := by simpa using hrun
      exact hs
  | cons e es ih =>
      obtain ⟨v, hv, hrest⟩ := M.run_cons_iff.1 hrun
      exact ih (hstep hs hC.1 hv) (hC.2 v hv) hrest

theorem meets_true (s : σ) (es : List ε) : M.Meets (fun _ _ => True) s es := by
  induction es generalizing s with
  | nil => trivial
  | cons e es ih => exact ⟨trivial, fun t _ => ih t⟩

/-- The invariant rule: what one step preserves, every run preserves. -/
theorem run_invariant (Inv : σ → Prop)
    (hstep : ∀ {s e t}, Inv s → M.step s e = some t → Inv t)
    {s t : σ} {es : List ε} (hs : Inv s) (hrun : M.run s es = some t) : Inv t :=
  M.run_invariant_of_meets Inv (fun hi _ ht => hstep hi ht) hs (M.meets_true s es) hrun

/-- A counter that no step moves by more than one is bounded by the length of the run. -/
theorem run_le_add_length (count : σ → Nat)
    (hstep : ∀ {s e t}, M.step s e = some t → count t ≤ count s + 1)
    {s t : σ} {es : List ε} (hrun : M.run s es = some t) : count t ≤ count s + es.length := by
  induction es generalizing s with
  | nil =>
      obtain rfl : s = t := by simpa using hrun
      exact Nat.le_refl _
  | cons e es ih =>
      obtain ⟨u, hu, hrest⟩ := M.run_cons_iff.1 hrun
      have hfirst := hstep hu
      have hlater := ih hrest
      rw [List.length_cons]
      omega

/-- If a step from `P` that satisfies `C` is one that leads to `P`, then the runs that stay in `P` are
the ones that meet `C`. -/
theorem forall_reached_iff {P : σ → Prop} {C : σ → ε → Prop} (Inv : σ → Prop)
    (hstep : ∀ {s e t}, Inv s → M.step s e = some t → Inv t)
    (hC : ∀ {s e}, Inv s → P s → (C s e ↔ ∀ t, M.step s e = some t → P t))
    {s : σ} {es : List ε} (hs : Inv s) (hP : P s) :
    (∀ fs t, fs <+: es → M.run s fs = some t → P t) ↔ M.Meets C s es := by
  induction es generalizing s with
  | nil =>
      refine ⟨fun _ => trivial, fun _ fs t hfs hrun => ?_⟩
      rw [List.prefix_nil.1 hfs, run_nil, Option.some.injEq] at hrun
      rw [← hrun]
      exact hP
  | cons e es ih =>
      constructor
      · intro h
        have hnext : ∀ t, M.step s e = some t → P t := fun t ht =>
          h [e] t (List.prefix_append [e] es) (M.run_cons_iff.2 ⟨t, ht, M.run_nil t⟩)
        refine ⟨(hC hs hP).2 hnext, fun t ht => (ih (hstep hs ht) (hnext t ht)).1 ?_⟩
        intro fs u hfs hrun
        exact h (e :: fs) u (List.cons_prefix_cons.2 ⟨rfl, hfs⟩) (M.run_cons_iff.2 ⟨t, ht, hrun⟩)
      · intro hmeets fs t hfs hrun
        cases fs with
        | nil =>
            rw [run_nil, Option.some.injEq] at hrun
            rw [← hrun]
            exact hP
        | cons f fs =>
            obtain ⟨rfl, htail⟩ := List.cons_prefix_cons.1 hfs
            obtain ⟨u, hu, hrest⟩ := M.run_cons_iff.1 hrun
            exact (ih (hstep hs hu) ((hC hs hP).1 hmeets.1 u hu)).2 (hmeets.2 u hu) fs t htail hrest

/-- A run meets a condition when each of its steps does, in the state that the events before it lead
to. -/
theorem meets_iff_forall_step {C : σ → ε → Prop} {s : σ} {es : List ε} :
    M.Meets C s es ↔ ∀ fs e t, fs ++ [e] <+: es → M.run s fs = some t → C t e := by
  induction es generalizing s with
  | nil =>
      refine ⟨fun _ fs e t hfs => ?_, fun _ => trivial⟩
      have hlen := hfs.length_le
      simp at hlen
  | cons e es ih =>
      constructor
      · rintro ⟨hC, hrest⟩ fs f t hfs hrun
        cases fs with
        | nil =>
            obtain ⟨rfl, -⟩ := List.cons_prefix_cons.1 hfs
            rw [run_nil, Option.some.injEq] at hrun
            exact hrun ▸ hC
        | cons g fs =>
            obtain ⟨rfl, htail⟩ := List.cons_prefix_cons.1 hfs
            obtain ⟨u, hu, hrun⟩ := M.run_cons_iff.1 hrun
            exact ih.1 (hrest u hu) fs f t htail hrun
      · intro h
        refine ⟨h [] e s (by simp) (M.run_nil s), fun u hu => ih.2 fun fs f t hfs hrun => ?_⟩
        exact h (e :: fs) f t (List.cons_prefix_cons.2 ⟨rfl, hfs⟩) (M.run_cons_iff.2 ⟨u, hu, hrun⟩)

/-- For a condition that can be decided, so can `Meets`, by taking the run. -/
instance decidableMeets {C : σ → ε → Prop} [∀ s e, Decidable (C s e)] :
    ∀ s es, Decidable (M.Meets C s es)
  | _, [] => isTrue trivial
  | s, e :: es =>
      match hstep : M.step s e with
      | none => decidable_of_iff (C s e)
          ⟨fun h => ⟨h, fun t ht => by rw [hstep] at ht; cases ht⟩, fun h => h.1⟩
      | some t =>
          have : Decidable (M.Meets C t es) := decidableMeets t es
          decidable_of_iff (C s e ∧ M.Meets C t es)
            ⟨fun h => M.meets_cons_of_step hstep h.1 h.2, fun h => ⟨h.1, h.2 t hstep⟩⟩

/-- If every event of the run satisfies `C` in whatever state, the run meets `C`. -/
theorem meets_of_forall_mem {C : σ → ε → Prop} {s : σ} {es : List ε}
    (h : ∀ e ∈ es, ∀ s, C s e) : M.Meets C s es := by
  induction es generalizing s with
  | nil => trivial
  | cons e es ih =>
      exact ⟨h e List.mem_cons_self s,
        fun t _ => ih fun e' he' => h e' (List.mem_cons_of_mem _ he')⟩

/-- Runs are transported along an abstraction function under which every step is matched by a run
of the abstract machine. -/
theorem run_of_simulation {τ : Type w} {δ : Type x} {N : Machine τ δ} (abs : σ → τ)
    (hsim : ∀ {s e t}, M.step s e = some t → ∃ ds, N.run (abs s) ds = some (abs t))
    {s t : σ} {es : List ε} (hrun : M.run s es = some t) :
    ∃ ds, N.run (abs s) ds = some (abs t) := by
  induction es generalizing s with
  | nil =>
      obtain rfl : s = t := by simpa using hrun
      exact ⟨[], rfl⟩
  | cons e es ih =>
      obtain ⟨v, hv, hrest⟩ := M.run_cons_iff.1 hrun
      obtain ⟨ds, hds⟩ := hsim hv
      obtain ⟨fs, hfs⟩ := ih hrest
      exact ⟨ds ++ fs, N.run_append_iff.2 ⟨abs v, hds, hfs⟩⟩

/-! ### Components that answer -/

variable {τ : Type w} {ι : Type v} {ο : Type x} {π : Type x}

/-- The states after each request and the answers. -/
def trace (respond : σ → ι → σ × ο) : σ → List ι → List (σ × ο)
  | _, [] => []
  | s, i :: is => respond s i :: trace respond (respond s i).1 is

/-- The component as a machine: it never refuses a request. -/
def ofRespond (respond : σ → ι → σ × ο) : Machine σ ι where
  step s i := some (respond s i).1

/-- Two components whose states and answers stay related, request by request, stay so along every list
of requests; what the requests have to satisfy is said of the second. -/
theorem trace_simulates {f : σ → ι → σ × ο} {g : τ → ι → τ × π} (R : σ → τ → Prop)
    (Q : ο → π → Prop) (C : τ → ι → Prop)
    (hstep : ∀ {s t i}, R s t → C t i → R (f s i).1 (g t i).1 ∧ Q (f s i).2 (g t i).2)
    {s : σ} {t : τ} {is : List ι} (hR : R s t) (hC : (ofRespond g).Meets C t is) :
    List.Forall₂ (fun (a : σ × ο) (b : τ × π) => R a.1 b.1 ∧ Q a.2 b.2) (trace f s is)
      (trace g t is) := by
  induction is generalizing s t with
  | nil => exact List.Forall₂.nil
  | cons i is ih =>
      have hnext := hstep hR hC.1
      exact List.Forall₂.cons hnext (ih hnext.1 (hC.2 _ rfl))

end Machine

end Core
end Erbridge
