import Erbridge.Core.Machine

/-!
# Runs without some of their events

A run of one machine, and what is left of its events when a rule has taken some of them out, as a run
of another one.

* `thin f` is what is left of the events of a run when `f` says, in each state, what is left of the
  next one.
* `good_of_run` carries a property of the state that a run ends in back to the state it starts in.
* `run_thin` is the simulation rule: if what is left of one step keeps two states related, then what is
  left of a run does.
* `rel_run` is the rule for two machines that take the same events.
-/

namespace Erbridge
namespace Core

section Rel

variable {α : Type*} {β : Type*} {γ : Type*} {δ : Type*} {r : α → β → Prop} {q : γ → δ → Prop}
  {x : Option α} {y : Option β}

theorem exists_of_rel {a : α} (hrel : Option.Rel r x y) (hx : x = some a) : ∃ b, y = some b ∧ r a b := by
  cases hrel with
  | some hr =>
      obtain rfl := Option.some.inj hx
      exact ⟨_, rfl, hr⟩
  | none => cases hx

theorem rel_bind {f : α → Option γ} {g : β → Option δ} (hrel : Option.Rel r x y)
    (h : ∀ {a b}, x = some a → y = some b → r a b → Option.Rel q (f a) (g b)) :
    Option.Rel q (x.bind f) (y.bind g) := by
  cases hrel with
  | some hr => exact h rfl rfl hr
  | none => exact .none

/-- The relation need only be followed where there is something on both sides. -/
theorem rel_map {f : α → γ} {g : β → δ} (hrel : Option.Rel r x y)
    (h : ∀ {a b}, x = some a → y = some b → r a b → q (f a) (g b)) :
    Option.Rel q (x.map f) (y.map g) := by
  cases hrel with
  | some hr => exact .some (h rfl rfl hr)
  | none => exact .none

theorem rel_imp {q : α → β → Prop} (hrel : Option.Rel r x y) (h : ∀ {a b}, x = some a → r a b → q a b) :
    Option.Rel q x y := by
  cases hrel with
  | some hr => exact .some (h rfl hr)
  | none => exact .none

theorem rel_map_self (f : α → β) (x : Option α) : Option.Rel (fun a b => b = f a) x (x.map f) := by
  cases x with
  | none => exact .none
  | some a => exact .some rfl

end Rel

namespace Machine

universe u v w x

variable {σ : Type u} {ε : Type v} {τ : Type w} {δ : Type x} (M : Machine σ ε)

/-- What is left of the events of a run. -/
def thin (f : σ → ε → List δ) : σ → List ε → List δ
  | _, [] => []
  | s, e :: es =>
      f s e ++
        match M.step s e with
        | some t => thin f t es
        | none => []

@[simp] theorem thin_nil (f : σ → ε → List δ) (s : σ) : M.thin f s [] = [] := rfl

theorem thin_cons_of_step {f : σ → ε → List δ} {s t : σ} {e : ε} {es : List ε}
    (hstep : M.step s e = some t) : M.thin f s (e :: es) = f s e ++ M.thin f t es := by
  simp only [thin, hstep]

variable {M} {N : Machine τ δ}

/-- What holds at the end of a run and cannot begin to hold by a step has held all along. -/
theorem good_of_run {C : σ → ε → Prop} (Inv Good : σ → Prop)
    (hinv : ∀ {s e t}, Inv s → C s e → M.step s e = some t → Inv t)
    (hback : ∀ {s e t}, Inv s → M.step s e = some t → Good t → Good s)
    {s t : σ} {es : List ε} (hi : Inv s) (hC : M.Meets C s es) (hrun : M.run s es = some t)
    (hgood : Good t) : Good s := by
  induction es generalizing s with
  | nil =>
      obtain rfl : s = t := by simpa using hrun
      exact hgood
  | cons e es ih =>
      obtain ⟨v, hv, hrest⟩ := M.run_cons_iff.1 hrun
      apply hback hi hv
      exact ih (hinv hi hC.1 hv) (hC.2 v hv) hrest

/-- The simulation rule for what is left of a run. -/
theorem run_thin {f : σ → ε → List δ} {C : σ → ε → Prop} (Inv Good : σ → Prop) (R : σ → τ → Prop)
    (hinv : ∀ {s e t}, Inv s → C s e → M.step s e = some t → Inv t)
    (hback : ∀ {s e t}, Inv s → M.step s e = some t → Good t → Good s)
    (hstep : ∀ {s s' e t}, Inv s → C s e → Good t → R s s' → M.step s e = some t →
      ∃ t', N.run s' (f s e) = some t' ∧ R t t')
    {s t : σ} {s' : τ} {es : List ε} (hi : Inv s) (hR : R s s') (hC : M.Meets C s es)
    (hrun : M.run s es = some t) (hgood : Good t) :
    ∃ t', N.run s' (M.thin f s es) = some t' ∧ R t t' := by
  induction es generalizing s s' with
  | nil =>
      obtain rfl : s = t := by simpa using hrun
      exact ⟨s', rfl, hR⟩
  | cons e es ih =>
      obtain ⟨v, hv, hrest⟩ := M.run_cons_iff.1 hrun
      have hiv : Inv v := hinv hi hC.1 hv
      have hgoodv : Good v := good_of_run Inv Good hinv hback hiv (hC.2 v hv) hrest hgood
      obtain ⟨v', hv', hRv⟩ := hstep hi hC.1 hgoodv hR hv
      obtain ⟨t', ht', hRt⟩ := ih hiv hRv (hC.2 v hv) hrest
      refine ⟨t', ?_, hRt⟩
      rw [M.thin_cons_of_step hv, N.run_append_iff]
      exact ⟨v', hv', ht'⟩

/-- Two machines that answer each event alike answer every list of events alike. -/
theorem rel_run {N : Machine τ ε} {C : σ → ε → Prop} (R : σ → τ → Prop)
    (hstep : ∀ {s s' e}, R s s' → C s e → Option.Rel R (M.step s e) (N.step s' e))
    {s : σ} {s' : τ} {es : List ε} (hR : R s s') (hC : M.Meets C s es) :
    Option.Rel R (M.run s es) (N.run s' es) := by
  induction es generalizing s s' with
  | nil => exact .some hR
  | cons e es ih =>
      exact rel_bind (hstep hR hC.1) fun ht _ hnext => ih hnext (hC.2 _ ht)

end Machine
end Core
end Erbridge
