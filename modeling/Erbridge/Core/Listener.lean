import Erbridge.Core.Thin
import Mathlib.Data.List.Induction
import Mathlib.Logic.Function.Basic

/-!
# Listening loops

A loop that accepts connections and hands each to a task of its own, as a machine in which the loop and
the tasks take their steps in any order.  The connections have numbers, which are the model's.

* `Listener` — such a loop, with what a step of it has to do with which connections.
* `Listener.Unaffected` — the loop accepts, and what it has become is what it had become without the
  connections that failed, now and whatever comes in next.
* `Listener.Simulation` — what has to be shown of each step for this, and `unaffected` that it is enough.
* `Listener.Erasure` — the case in which the connections that failed can be erased from the state.
* `Spawner` — the loop whose tasks share nothing.
* `blank`, `hide` — a function and a list of the connections in which some of them have never come.
-/

namespace Erbridge
namespace Core

/-- The values at `F` are taken back to what they were at first. -/
def blank {β : Type*} (F : Nat → Bool) (d : β) (f : Nat → β) : Nat → β := fun i => if F i then d else f i

section Blank

variable {β : Type*} {F : Nat → Bool} {d k : β} {f : Nat → β} {i : Nat}

@[simp] theorem blank_const : blank F d (fun _ => d) = fun _ => d := by
  funext i
  exact ite_self d

theorem blank_of_mem (hF : F i = true) : blank F d f i = d := if_pos hF

theorem blank_of_not_mem (hF : F i = false) : blank F d f i = f i := by
  rw [blank, hF]
  rfl

theorem blank_update_of_mem (hF : F i = true) :
    blank F d (Function.update f i k) = blank F d f := by
  funext j
  rcases eq_or_ne j i with rfl | hne
  · rw [blank_of_mem hF, blank_of_mem hF]
  · simp only [blank, Function.update_of_ne hne]

theorem blank_update_of_not_mem (hF : F i = false) :
    blank F d (Function.update f i k) = Function.update (blank F d f) i k := by
  funext j
  rcases eq_or_ne j i with rfl | hne
  · rw [blank_of_not_mem hF, Function.update_self, Function.update_self]
  · simp only [blank, Function.update_of_ne hne]

end Blank

/-- In the places of `F` there is `d`. -/
def hide {β : Type*} (F : Nat → Bool) (d : β) (l : List β) : List β :=
  l.mapIdx fun i c => if F i then d else c

section Hide

variable {β : Type*} {F : Nat → Bool} {d c : β} {l : List β} {i : Nat} {p : β → Bool}

theorem hide_concat : hide F d (l ++ [c]) = hide F d l ++ [if F l.length then d else c] :=
  List.mapIdx_concat

theorem getElem?_hide (hF : F i = false) : (hide F d l)[i]? = l[i]? := by
  rw [hide, List.getElem?_mapIdx]
  simp [hF]

theorem hide_set_of_mem (hF : F i = true) : hide F d (l.set i c) = hide F d l := by
  apply List.ext_getElem?
  intro j
  rcases eq_or_ne i j with rfl | hne
  · rw [hide, hide, List.getElem?_mapIdx, List.getElem?_mapIdx, List.getElem?_set_self']
    simp only [hF, if_true]
    cases l[i]? with
    | none => rfl
    | some a => rfl
  · rw [hide, hide, List.getElem?_mapIdx, List.getElem?_mapIdx, List.getElem?_set_ne hne]

theorem hide_set (hF : F i = false) : hide F d (l.set i c) = (hide F d l).set i c := by
  rw [hide, List.mapIdx_set]
  simp [hF, hide]

/-- Those that have never come are not counted. -/
theorem countP_hide_le (hp : p d = false) : (hide F d l).countP p ≤ l.countP p := by
  induction l using List.reverseRecOn with
  | nil => exact Nat.le_refl 0
  | append_singleton l c ih =>
      rw [hide_concat, List.countP_append, List.countP_append]
      apply Nat.add_le_add ih
      split
      · simp [hp]
      · exact Nat.le_refl _

/-- Nothing is missing from the count if none of them counts. -/
theorem countP_hide_eq (hp : p d = false) (hgone : ∀ i c, F i = true → l[i]? = some c → p c = false) :
    (hide F d l).countP p = l.countP p := by
  induction l using List.reverseRecOn with
  | nil => rfl
  | append_singleton l c ih =>
      have hlast : (l ++ [c])[l.length]? = some c := by simp
      rw [hide_concat, List.countP_append, List.countP_append, ih]
      · split
        · rename_i hF
          simp [hp, hgone l.length c hF hlast]
        · rfl
      · intro i a hi ha
        apply hgone i a hi
        rw [List.getElem?_append_left (List.getElem?_eq_some_iff.1 ha).1]
        exact ha

end Hide

/-- What a loop does with an error of `accept` or `recv_from`. -/
inductive OnError
  /-- `?` returns it out of the loop. -/
  | propagates
  /-- It is logged, and the loop goes on. -/
  | logs
deriving DecidableEq

/-- Whether the loop goes on. -/
def OnError.goesOn : OnError → Bool
  | .propagates => false
  | .logs => true

/-- A listening loop and the tasks of its connections.  In `concerns`, `Failed` and `Agrees` the set `F`
is one of connections. -/
structure Listener where
  State : Type
  Event : Type
  /-- What a connection uses up. -/
  Skip : Type
  machine : Machine State Event
  start : State
  accepting : State → Bool
  onError : OnError
  /-- Accepting or receiving has come out as an error. -/
  isError : Event → Bool
  /-- What is asked of a step besides. -/
  Settled : State → Event → Prop
  /-- The event is one of a connection in `F`. -/
  concerns : (Nat → Bool) → State → Event → Bool
  /-- What the event uses up: the next number of a connection, which is the model's, or one of the
  code's. -/
  opens : State → Event → Option Skip
  /-- Nobody uses it up, and it is gone. -/
  passOver : Skip → State → State
  /-- The connection has failed. -/
  failed : State → Nat → Bool
  /-- No connection is on its way to that in the middle of a section of the loop's. -/
  Quiet : State → Prop
  /-- Those in `F` have failed, and no others because of them. -/
  Failed : State → (Nat → Bool) → Prop
  /-- The second state is the first one without the connections in `F`. -/
  Agrees : (Nat → Bool) → State → State → Prop

namespace Listener

variable (L : Listener)

/-- No error gets out of the loop, and the step is settled. -/
def Spared (s : L.State) (e : L.Event) : Prop :=
  (L.isError e = true → L.onError = .logs) ∧ L.Settled s e

/-- What is left of an event when neither errors nor the connections in `F` ever come. -/
def left (F : Nat → Bool) (s : L.State) (e : L.Event) : List (L.Skip ⊕ L.Event) :=
  if L.isError e || L.concerns F s e then (L.opens s e).toList.map Sum.inl else [.inr e]

/-- The loop, to which it can also happen that something is used up by nobody. -/
def rest : Machine L.State (L.Skip ⊕ L.Event) where
  step
    | s, .inr e => L.machine.step s e
    | s, .inl x => some (L.passOver x s)

/-- What is left of an event that is taken out. -/
def remainder (s s' : L.State) (e : L.Event) : L.State :=
  (L.opens s e).elim s' fun x => L.passOver x s'

/-- From here on the loop does the same from the second state as from the first with everything that
does not concern the connections in `F`. -/
def ServesAlike (F : Nat → Bool) (s s' : L.State) : Prop :=
  ∀ es, L.machine.Meets (fun s e => L.Spared s e ∧ L.concerns F s e = false) s es →
    Option.Rel (L.Agrees F) (L.machine.run s es) (L.machine.run s' es)

/-- The loop accepts, and it serves as if those that failed had never come. -/
structure Unaffected (es : List L.Event) (t : L.State) : Prop where
  accepting : L.accepting t = true
  served : ∀ F, L.Failed t F → ∃ t',
    L.rest.run L.start (L.machine.thin (L.left F) L.start es) = some t' ∧ L.ServesAlike F t t'
  /-- All that have failed are such a set. -/
  together : L.Quiet t → L.Failed t (L.failed t)

/-- What has to be shown of each step.  `Good F` is what is known all along of connections that end up
as the ones in `F` do; `Past F` relates a state to the one without them while the steps are taken in
which they fail, and `Future F` after that. -/
structure Simulation where
  Inv : L.State → Prop
  Good : (Nat → Bool) → L.State → Prop
  Past : (Nat → Bool) → L.State → L.State → Prop
  Future : (Nat → Bool) → L.State → L.State → Prop
  inv_start : Inv L.start
  inv_step : ∀ {s e t}, Inv s → L.Spared s e → L.machine.step s e = some t → Inv t
  accepting : ∀ {s}, Inv s → L.accepting s = true
  good_of_failed : ∀ {F s}, Inv s → L.Failed s F → Good F s
  good_of_step : ∀ {F s e t}, Inv s → L.machine.step s e = some t → Good F t → Good F s
  past_start : ∀ F, Past F L.start L.start
  /-- A step of the others can be taken without those in `F`. -/
  past_kept : ∀ {F s s' e t}, Inv s → Good F t → Past F s s' → L.isError e = false →
    L.concerns F s e = false → L.machine.step s e = some t →
    ∃ t', L.machine.step s' e = some t' ∧ Past F t t'
  /-- An error and a step of those in `F` leave nothing behind but what they use up. -/
  past_gone : ∀ {F s s' e t}, Inv s → L.Spared s e → Good F t → Past F s s' →
    (L.isError e || L.concerns F s e) = true → L.machine.step s e = some t →
    Past F t (L.remainder s s' e)
  future_of_past : ∀ {F s s'}, Inv s → L.Failed s F → Past F s s' → Future F s s'
  future_step : ∀ {F s s' e}, Future F s s' → L.Spared s e ∧ L.concerns F s e = false →
    Option.Rel (Future F) (L.machine.step s e) (L.machine.step s' e)
  agrees : ∀ {F s s'}, Future F s s' → L.Agrees F s s'
  together : ∀ {s}, Inv s → L.Quiet s → L.Failed s (L.failed s)

variable {L}

/-- What is left of a step can be taken without those in `F`. -/
theorem Simulation.past_step (S : L.Simulation) {F : Nat → Bool} {s s' t : L.State} {e : L.Event}
    (hi : S.Inv s) (hspared : L.Spared s e) (hgood : S.Good F t) (hpast : S.Past F s s')
    (hstep : L.machine.step s e = some t) :
    ∃ t', L.rest.run s' (L.left F s e) = some t' ∧ S.Past F t t' := by
  unfold left
  split
  · rename_i hgone
    refine ⟨L.remainder s s' e, ?_, S.past_gone hi hspared hgood hpast hgone hstep⟩
    unfold remainder
    cases L.opens s e with
    | none => rfl
    | some x => rfl
  · rename_i hkept
    simp only [Bool.or_eq_true, not_or, Bool.not_eq_true] at hkept
    obtain ⟨t', ht', hnext⟩ := S.past_kept hi hgood hpast hkept.1 hkept.2 hstep
    exact ⟨t', L.rest.run_cons_iff.2 ⟨t', ht', rfl⟩, hnext⟩

theorem Simulation.unaffected (S : L.Simulation) {es : List L.Event} {t : L.State}
    (hrun : L.machine.run L.start es = some t) (hspared : L.machine.Meets L.Spared L.start es) :
    L.Unaffected es t := by
  have hi : S.Inv t := L.machine.run_invariant_of_meets S.Inv S.inv_step S.inv_start hspared hrun
  refine ⟨S.accepting hi, ?_, S.together hi⟩
  · intro F hF
    obtain ⟨t', ht', hpast⟩ := Machine.run_thin S.Inv (S.Good F) (S.Past F) S.inv_step S.good_of_step
      S.past_step S.inv_start (S.past_start F) hspared hrun (S.good_of_failed hi hF)
    refine ⟨t', ht', fun fs hfs => ?_⟩
    have hrel := Machine.rel_run (S.Future F) S.future_step (S.future_of_past hi hF hpast) hfs
    exact rel_imp hrel fun _ h => S.agrees h

variable (L)

/-- A loop from whose state the connections in `F` can be erased. -/
structure Erasure where
  erase : (Nat → Bool) → L.State → L.State
  Inv : L.State → Prop
  Good : (Nat → Bool) → L.State → Prop
  inv_start : Inv L.start
  inv_step : ∀ {s e t}, Inv s → L.Spared s e → L.machine.step s e = some t → Inv t
  accepting : ∀ {s}, Inv s → L.accepting s = true
  good_of_failed : ∀ {F s}, Inv s → L.Failed s F → Good F s
  good_of_step : ∀ {F s e t}, Inv s → L.machine.step s e = some t → Good F t → Good F s
  erase_start : ∀ F, erase F L.start = L.start
  opens_eq : ∀ s e, L.opens s e = none
  /-- The others' steps do not look at what is erased. -/
  step_erase : ∀ {F s e}, L.concerns F s e = false →
    L.machine.step (erase F s) e = (L.machine.step s e).map (erase F)
  /-- Errors and the steps of what is erased leave nothing behind. -/
  erase_step : ∀ {F s e t}, Inv s → L.Spared s e → Good F t →
    (L.isError e || L.concerns F s e) = true → L.machine.step s e = some t → erase F t = erase F s
  agrees : ∀ F s, L.Agrees F s (erase F s)
  together : ∀ {s}, Inv s → L.Quiet s → L.Failed s (L.failed s)

variable {L}

/-- Erasing is a simulation. -/
def Erasure.simulation (E : L.Erasure) : L.Simulation where
  Inv := E.Inv
  Good := E.Good
  Past F s s' := s' = E.erase F s
  Future F s s' := s' = E.erase F s
  inv_start := E.inv_start
  inv_step := E.inv_step
  accepting := E.accepting
  good_of_failed := E.good_of_failed
  good_of_step := E.good_of_step
  past_start F := (E.erase_start F).symm
  past_kept := by
    intro F s s' e t _ _ hpast _ hconcerns hstep
    refine ⟨E.erase F t, ?_, rfl⟩
    rw [hpast, E.step_erase hconcerns, hstep]
    rfl
  past_gone := by
    intro F s s' e t hi hspared hgood hpast hgone hstep
    rw [remainder, E.opens_eq, E.erase_step hi hspared hgood hgone hstep]
    exact hpast
  future_of_past _ _ h := h
  future_step := by
    intro F s s' e hfuture hkept
    subst hfuture
    rw [E.step_erase hkept.2]
    exact rel_map_self (E.erase F) (L.machine.step s e)
  agrees := by
    intro F s s' h
    rw [h]
    exact E.agrees F s
  together := E.together

end Listener

/-! ## Tasks that share nothing -/

/-- What the task of one connection does. -/
structure Handler (κ ι : Type) where
  start : κ
  step : κ → ι → Option κ
  /-- It has returned, with an error or without one. -/
  isOver : κ → Bool

/-- The loop, and the connections that it has accepted. -/
structure Spawner (κ : Type) where
  accepting : Bool
  conns : Nat → Option κ

namespace Spawner

variable {κ ι : Type}

def initial : Spawner κ where
  accepting := true
  conns := fun _ => none

inductive Event (ι : Type)
  /-- `listener.accept()` returns connection `c`, and its task is spawned. -/
  | accept (c : Nat)
  | acceptFails
  /-- A step of the task of connection `c`. -/
  | conn (c : Nat) (e : ι)
deriving DecidableEq

def setConn (s : Spawner κ) (c : Nat) (k : κ) : Spawner κ :=
  { s with conns := Function.update s.conns c (some k) }

/-- The connections in `F` were never accepted. -/
def erase (F : Nat → Bool) (s : Spawner κ) : Spawner κ :=
  { s with conns := blank F none s.conns }

def step (onError : OnError) (h : Handler κ ι) (s : Spawner κ) : Event ι → Option (Spawner κ)
  | .accept c =>
      match s.accepting, s.conns c with
      | true, none => some (s.setConn c h.start)
      | _, _ => none
  | .acceptFails => if s.accepting then some { s with accepting := onError.goesOn } else none
  | .conn c e => (s.conns c).bind fun k => (h.step k e).map fun k' => s.setConn c k'

/-- The connection that an event is about. -/
def Event.conn? : Event ι → Option Nat
  | .accept c | .conn c _ => some c
  | .acceptFails => none

/-- The listening loop that hands each connection to such a task. -/
def listener (onError : OnError) (h : Handler κ ι) : Listener where
  State := Spawner κ
  Event := Event ι
  Skip := Empty
  machine := ⟨step onError h⟩
  start := initial
  accepting := accepting
  onError := onError
  isError e := e matches .acceptFails
  Settled _ _ := True
  concerns F _ e := e.conn?.any F
  opens _ _ := none
  passOver := Empty.elim
  failed s c := (s.conns c).any h.isOver
  Quiet _ := True
  Failed s F := ∀ c, F c = true → (s.conns c).any h.isOver = true
  Agrees F s s' := s' = s.erase F

variable {s t : Spawner κ} {F : Nat → Bool}

theorem erase_setConn_of_mem {c : Nat} (hF : F c = true) (k : κ) :
    (s.setConn c k).erase F = s.erase F := by
  simp only [erase, setConn, blank_update_of_mem hF]

theorem erase_setConn_of_not_mem {c : Nat} (hF : F c = false) (k : κ) :
    (s.setConn c k).erase F = (s.erase F).setConn c k := by
  simp only [erase, setConn, blank_update_of_not_mem hF]

/-- The task of a connection touches that connection only. -/
theorem step_erase {onError : OnError} {h : Handler κ ι} {e : Event ι} (hF : e.conn?.any F = false) :
    step onError h (s.erase F) e = (step onError h s e).map (erase F) := by
  cases e with
  | accept c =>
      have hc : F c = false := by simpa [Event.conn?] using hF
      have hsame : (s.erase F).conns c = s.conns c := blank_of_not_mem hc
      have hflag : (s.erase F).accepting = s.accepting := rfl
      simp only [step, hsame, hflag]
      cases s.accepting with
      | true =>
          cases s.conns c with
          | none => exact congrArg some (erase_setConn_of_not_mem hc _).symm
          | some k => rfl
      | false => rfl
  | acceptFails =>
      cases hs : s.accepting with
      | true => simp [step, erase, hs]
      | false => simp [step, erase, hs]
  | conn c e =>
      have hc : F c = false := by simpa [Event.conn?] using hF
      have hsame : (s.erase F).conns c = s.conns c := blank_of_not_mem hc
      simp only [step, hsame]
      cases hk : s.conns c with
      | none => rfl
      | some k =>
          cases hk' : h.step k e with
          | none => simp [hk']
          | some k' => simp [hk', erase_setConn_of_not_mem hc]

theorem erase_step {onError : OnError} {h : Handler κ ι} {e : Event ι} (hF : e.conn?.all F = true)
    (hspared : e = .acceptFails → onError = .logs) (hs : s.accepting = true)
    (hstep : step onError h s e = some t) : t.erase F = s.erase F := by
  cases e with
  | accept c =>
      simp only [step] at hstep
      split at hstep
      · cases hstep
        exact erase_setConn_of_mem (by simpa [Event.conn?] using hF) _
      · cases hstep
  | acceptFails =>
      simp only [step, hs, if_true, hspared rfl] at hstep
      cases hstep
      simp [erase, OnError.goesOn, hs]
  | conn c e =>
      simp only [step, Option.bind_eq_some_iff, Option.map_eq_some_iff] at hstep
      obtain ⟨k, -, k', -, rfl⟩ := hstep
      exact erase_setConn_of_mem (by simpa [Event.conn?] using hF) _

/-- An error that is spared leaves the state as it is, and nothing else touches the flag. -/
theorem accepting_step {onError : OnError} {h : Handler κ ι} {e : Event ι}
    (hspared : e = .acceptFails → onError = .logs) (hs : s.accepting = true)
    (hstep : step onError h s e = some t) : t.accepting = true := by
  cases e with
  | accept c =>
      simp only [step] at hstep
      split at hstep
      · cases hstep
        exact hs
      · cases hstep
  | acceptFails =>
      simp only [step, hs, if_true, Option.some.injEq, hspared rfl] at hstep
      subst hstep
      rfl
  | conn c e =>
      simp only [step, Option.bind_eq_some_iff, Option.map_eq_some_iff] at hstep
      obtain ⟨k, -, k', -, rfl⟩ := hstep
      exact hs

theorem stopped_of_error {h : Handler κ ι} (hstep : step .propagates h s .acceptFails = some t) :
    t.accepting = false := by
  simp only [step, Option.ite_none_right_eq_some, Option.some.injEq] at hstep
  obtain ⟨-, rfl⟩ := hstep
  rfl

/-- Whichever connections are erased, the others go on as before. -/
def erasure (onError : OnError) (h : Handler κ ι) : (listener onError h).Erasure where
  erase := erase
  Inv s := s.accepting = true
  Good _ _ := True
  inv_start := rfl
  inv_step := by
    intro s e t hs hspared hstep
    exact accepting_step (fun he => hspared.1 (by subst he; rfl)) hs hstep
  accepting h := h
  good_of_failed _ _ := trivial
  good_of_step _ _ _ := trivial
  erase_start F := by
    show (⟨true, blank F none fun _ => none⟩ : Spawner κ) = ⟨true, fun _ => none⟩
    rw [blank_const]
  opens_eq _ _ := rfl
  step_erase := step_erase
  erase_step := by
    intro F s e t hs hspared _ hgone hstep
    refine erase_step ?_ (fun he => hspared.1 (by subst he; rfl)) hs hstep
    cases e with
    | acceptFails => rfl
    | accept c | conn c e => simpa [listener, Event.conn?] using hgone
  agrees _ _ := rfl
  together _ _ _ hc := hc

end Spawner
end Core
end Erbridge
