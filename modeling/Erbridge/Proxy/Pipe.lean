import Erbridge.Core.Machine
import Erbridge.Proxy.Pump
import Mathlib.Logic.Function.Basic

/-!
# Both directions

The model of `pipe_bidirectional_tracked`: two copy loops, each a task of its own over one half of
either stream, and a `join!` of both.  What the two streams answer is left open.

* `Pump.Stuck` — of two loops one has failed and the other waits for its source.
* `Pump.readHangs`, `Pump.writeHangs` — the answers that lead there.
* `Pipe.step` — one poll of either loop, or the return of the call.
* `Pipe.hangs_iff_run` — the runs in which the call never waits for one direction after the other one
  has failed; when it returns, both streams are released; the end of one direction leaves the other one
  alone.
* `Pipe.reset_not_noticed` — a reset that the call never reports while the other side is silent.
-/

namespace Erbridge
namespace Proxy

open Erbridge.Core

namespace Pump

/-- `Ok(())` or an error: the task has ended and dropped its two halves. -/
def isOver : Pump → Bool
  | .done | .failed _ => true
  | _ => false

def isFailed : Pump → Bool
  | .failed _ => true
  | _ => false

/-- It waits for more from its source, or for the end of it. -/
def isWaiting : Pump → Bool
  | .waiting => true
  | _ => false

/-- What the task returns. -/
def outcome : Pump → Except IoError Unit
  | .failed e => .error e
  | _ => .ok ()

/-- One of the two loops has failed and the other one waits for its source. -/
def Stuck (p q : Pump) : Prop :=
  (p.isFailed = true ∧ q.isWaiting = true) ∨ (q.isFailed = true ∧ p.isWaiting = true)

/-- With this answer to its read a loop fails while the other one waits, or is put off after the other
one has failed. -/
def readHangs (other : Pump) : Poll Bytes → Bool
  | .ready (.error _) => other.isWaiting
  | .ready (.ok _) => false
  | .pending | .panic => other.isFailed -- the task is left waiting for its source

/-- With this answer to its write a loop fails while the other one waits. -/
def writeHangs (other : Pump) (rest : Bytes) (p : Poll Nat) : Bool :=
  match writeAll rest p with
  | .failed _ => other.isWaiting
  | .rest _ => false

theorem Stuck.symm {p q : Pump} (h : Stuck p q) : Stuck q p := Or.symm h

theorem not_stuck_of_busy {p q : Pump} (hfailed : p.isFailed = false)
    (hwaiting : p.isWaiting = false) : ¬Stuck p q := by
  rintro (⟨h, -⟩ | ⟨-, h⟩)
  · rw [hfailed] at h
    cases h
  · rw [hwaiting] at h
    cases h

theorem stuck_onRead_iff {q : Pump} (a : Poll Bytes) :
    Stuck (onRead a) q ↔ readHangs q a = true := by
  match a with
  | .ready (.ok []) => simp [onRead, Stuck, readHangs, isFailed, isWaiting]
  | .ready (.ok (b :: bytes)) => simp [onRead, Stuck, readHangs, isFailed, isWaiting]
  | .ready (.error e) => simp [onRead, Stuck, readHangs, isFailed, isWaiting]
  | .pending | .panic => simp [onRead, Stuck, readHangs, isFailed, isWaiting]

theorem stuck_onWrite_iff {q : Pump} (rest : Bytes) (n : Nat) (a : Poll Nat) :
    Stuck (onWrite rest n a).1 q ↔ writeHangs q rest a = true := by
  unfold onWrite writeHangs
  match writeAll rest a with
  | .failed e => simp [Stuck, isFailed, isWaiting]
  | .rest [] => simp [Stuck, isFailed, isWaiting]
  | .rest (b :: more) => simp [Stuck, isFailed, isWaiting]

theorem not_stuck_onShutdown {q : Pump} (a : Poll Unit) : ¬Stuck (onShutdown a) q := by
  rcases onShutdown_cases a with heq | heq
  · rw [heq]
    exact not_stuck_of_busy rfl rfl
  · rw [heq]
    exact not_stuck_of_busy rfl rfl

end Pump

/-- The two directions. -/
inductive Way
  | aToB
  | bToA
deriving DecidableEq

def Way.other : Way → Way
  | .aToB => .bToA
  | .bToA => .aToB

theorem Way.other_ne (w : Way) : w.other ≠ w := by
  cases w <;> simp [Way.other]

@[simp] theorem Way.other_other (w : Way) : w.other.other = w := by
  cases w <;> rfl

/-- A call of `pipe_bidirectional_tracked`. -/
structure Pipe where
  /-- The two tasks. -/
  pump : Way → Pump
  counter : Way → Nat
  /-- What the call has returned. -/
  result : Option (Except IoError Unit)

namespace Pipe

def initial : Pipe where
  pump := fun _ => .reading
  counter := fun _ => 0
  result := none

/-- A poll of one of the tasks, and what the stream answers; or `join!` finds both of them ended. -/
inductive Event
  | read (w : Way) (a : Poll Bytes)
  | write (w : Way) (a : Poll Nat)
  | shutdown (w : Way) (a : Poll Unit)
  | join

def setPump (s : Pipe) (w : Way) (p : Pump) : Pipe :=
  { s with pump := Function.update s.pump w p }

/-- `r1?; r2?; Ok(())`. -/
def joined (s : Pipe) : Except IoError Unit :=
  match (s.pump .aToB).outcome with
  | .error e => .error e
  | .ok () => (s.pump .bToA).outcome

def step (s : Pipe) : Event → Option Pipe
  | .read w a => if (s.pump w).isReading then some (s.setPump w (Pump.onRead a)) else none
  | .write w a =>
      match s.pump w with
      | .writing rest n =>
          some { s.setPump w (Pump.onWrite rest n a).1 with
            counter := Function.update s.counter w (s.counter w + (Pump.onWrite rest n a).2) }
      | _ => none
  | .shutdown w a =>
      match s.pump w with
      | .shuttingDown => some (s.setPump w (Pump.onShutdown a))
      | _ => none
  | .join =>
      -- `join!` waits for both, also where one has failed
      if (s.pump .aToB).isOver ∧ (s.pump .bToA).isOver ∧ s.result = none then
        some { s with result := some s.joined }
      else none

def machine : Machine Pipe Event where
  step := step

/-- The call has not returned, one direction has failed, and the other one waits for data or for its
end. -/
def Stuck (s : Pipe) : Prop :=
  s.result = none ∧ Pump.Stuck (s.pump .aToB) (s.pump .bToA)

/-- A direction fails while the other one waits, or is put off after the other one has failed. -/
def Hangs (s : Pipe) : Event → Prop
  | .read w a => (s.pump w).isReading = true ∧ Pump.readHangs (s.pump w.other) a = true
  | .write w a => ∃ rest n, s.pump w = .writing rest n ∧
      Pump.writeHangs (s.pump w.other) rest a = true
  | .shutdown _ _ | .join => False

/-- Both tasks have dropped their halves, so that neither stream is held any more. -/
def Released (s : Pipe) : Prop := ∀ w, (s.pump w).isOver = true

/-- The call returns when both tasks have ended. -/
def Inv (s : Pipe) : Prop := s.result ≠ none → s.Released

theorem stuck_iff (s : Pipe) (w : Way) :
    s.Stuck ↔ s.result = none ∧ Pump.Stuck (s.pump w) (s.pump w.other) := by
  cases w with
  | aToB => exact Iff.rfl
  | bToA => exact and_congr_right fun _ => ⟨Pump.Stuck.symm, Pump.Stuck.symm⟩

/-- A task that can be polled keeps the call from returning. -/
theorem Inv.pending {s : Pipe} (hs : Inv s) {w : Way} (h : (s.pump w).isOver = false) :
    s.result = none := by
  by_contra hne
  have hover := hs hne w
  rw [h] at hover
  cases hover

theorem Inv.setPump {s : Pipe} {w : Way} {p : Pump} {counter : Way → Nat} (hs : Inv s)
    (h : (s.pump w).isOver = false) : Inv { s.setPump w p with counter := counter } :=
  fun hne => absurd (hs.pending h) hne

theorem isOver_of_isReading {p : Pump} (h : p.isReading = true) : p.isOver = false := by
  cases p <;> simp_all [Pump.isReading, Pump.isOver]

/-- A step is a poll of a task that has not ended, or the return of the call. -/
theorem step_cases {s t : Pipe} {e : Event} (hstep : s.step e = some t) :
    (∃ w p counter, (s.pump w).isOver = false ∧ t = { s.setPump w p with counter := counter }) ∨
      s.Released ∧ t = { s with result := some s.joined } := by
  cases e with
  | read w a =>
      obtain ⟨hreading, ⟨⟩⟩ := Option.ite_none_right_eq_some.1 hstep
      exact Or.inl ⟨w, Pump.onRead a, s.counter, isOver_of_isReading hreading, rfl⟩
  | write w a =>
      simp only [step] at hstep
      split at hstep
      · rename_i rest n hpc
        cases hstep
        exact Or.inl ⟨w, _, _, by rw [hpc]; rfl, rfl⟩
      · cases hstep
  | shutdown w a =>
      simp only [step] at hstep
      split at hstep
      · rename_i hpc
        cases hstep
        exact Or.inl ⟨w, Pump.onShutdown a, s.counter, by rw [hpc]; rfl, rfl⟩
      · cases hstep
  | join =>
      obtain ⟨⟨haToB, hbToA, -⟩, ⟨⟩⟩ := Option.ite_none_right_eq_some.1 hstep
      refine Or.inr ⟨fun w => ?_, rfl⟩
      cases w with
      | aToB => exact haToB
      | bToA => exact hbToA

theorem inv_step {s t : Pipe} {e : Event} (hs : Inv s) (hstep : s.step e = some t) : Inv t := by
  rcases step_cases hstep with ⟨w, p, counter, hbusy, rfl⟩ | ⟨hreleased, rfl⟩
  · exact hs.setPump hbusy
  · exact fun _ => hreleased

theorem inv_run {es : List Event} {s : Pipe} (hrun : machine.run initial es = some s) : Inv s :=
  machine.run_invariant Inv inv_step (fun h => absurd rfl h) hrun

/-- After a poll of one task the call is stuck exactly if the answer makes it so. -/
theorem stuck_setPump_iff {s : Pipe} {w : Way} {p : Pump} (counter : Way → Nat) (hs : Inv s)
    (h : (s.pump w).isOver = false) :
    Stuck { s.setPump w p with counter := counter } ↔ Pump.Stuck p (s.pump w.other) := by
  rw [stuck_iff _ w]
  simp only [Pipe.setPump, Function.update_self, Function.update_of_ne w.other_ne]
  exact and_iff_right (hs.pending h)

theorem hangs_iff {s : Pipe} {e : Event} (hs : Inv s) :
    ¬s.Hangs e ↔ ∀ t, s.step e = some t → ¬t.Stuck := by
  cases e with
  | read w a =>
      simp only [Hangs, step]
      split
      · rename_i hreading
        have hiff := stuck_setPump_iff (p := Pump.onRead a) s.counter hs
          (isOver_of_isReading hreading)
        rw [Pump.stuck_onRead_iff] at hiff
        simp only [hreading, true_and, Option.some.injEq, forall_eq']
        exact not_congr hiff.symm
      · rename_i hnot
        simp [hnot]
  | write w a =>
      simp only [Hangs, step]
      split
      · rename_i rest n hpc
        have hiff := stuck_setPump_iff (p := (Pump.onWrite rest n a).1)
          (Function.update s.counter w (s.counter w + (Pump.onWrite rest n a).2)) hs
          (w := w) (by rw [hpc]; rfl)
        rw [Pump.stuck_onWrite_iff] at hiff
        simp only [Option.some.injEq, forall_eq', hiff]
        refine not_congr ⟨?_, fun h => ⟨rest, n, hpc, h⟩⟩
        rintro ⟨rest', n', heq, h⟩
        rw [hpc] at heq
        obtain ⟨rfl, rfl⟩ := Pump.writing.inj heq
        exact h
      · rename_i hnot
        exact ⟨fun _ t ht => (by cases ht), fun _ ⟨rest, n, hpc, _⟩ => hnot rest n hpc⟩
  | shutdown w a =>
      simp only [Hangs, step, not_false_eq_true, true_iff]
      split
      · rename_i hpc
        have hiff := stuck_setPump_iff (p := Pump.onShutdown a) s.counter hs (w := w)
          (by rw [hpc]; rfl)
        simp only [Option.some.injEq, forall_eq']
        exact fun h => Pump.not_stuck_onShutdown a (hiff.1 h)
      · exact fun t ht => by cases ht
  | join =>
      simp only [Hangs, step, not_false_eq_true, true_iff]
      split
      · simp [Stuck]
      · exact fun t ht => by cases ht

/-- One direction has come to the end of its source, and the other one goes on: the call has not
returned and cannot, the other task can be polled whatever the stream answers, and nothing that happens
to it touches the first one. -/
def GoesOn (s : Pipe) (w : Way) : Prop :=
  s.result = none ∧ s.step .join = none ∧
    (∀ a b c, (s.step (.read w.other a)).isSome ∨ (s.step (.write w.other b)).isSome ∨
      (s.step (.shutdown w.other c)).isSome) ∧
    ∀ e t, s.step e = some t → t.pump w = .done ∧ t.result = none

theorem can_poll {s : Pipe} {w : Way} (h : (s.pump w).isOver = false) (a : Poll Bytes)
    (b : Poll Nat) (c : Poll Unit) : (s.step (.read w a)).isSome ∨ (s.step (.write w b)).isSome ∨
      (s.step (.shutdown w c)).isSome := by
  cases hpc : s.pump w with
  | reading | waiting => exact Or.inl (by simp [step, hpc, Pump.isReading])
  | writing rest n => exact Or.inr (Or.inl (by simp [step, hpc]))
  | shuttingDown => exact Or.inr (Or.inr (by simp [step, hpc]))
  | done | failed => simp [hpc, Pump.isOver] at h

theorem Inv.goes_on {s : Pipe} (hs : Inv s) {w : Way} (hdone : s.pump w = .done)
    (hother : (s.pump w.other).isOver = false) : s.GoesOn w := by
  have hresult := hs.pending hother
  have hjoin : s.step .join = none := by
    cases w with
    | aToB => simp [step, show (s.pump .bToA).isOver = false from hother]
    | bToA => simp [step, show (s.pump .aToB).isOver = false from hother]
  refine ⟨hresult, hjoin, can_poll hother, fun e t hstep => ?_⟩
  rcases step_cases hstep with ⟨v, p, counter, hbusy, rfl⟩ | ⟨hreleased, rfl⟩
  -- The first task cannot be polled any more.
  · have hne : w ≠ v := by
      rintro rfl
      rw [hdone] at hbusy
      cases hbusy
    refine ⟨?_, hresult⟩
    show Function.update s.pump v p w = .done
    rw [Function.update_of_ne hne, hdone]
  · rw [hreleased w.other] at hother
    cases hother

/-- **When the call waits for the wrong thing.**  The runs in which it never waits for one direction
after the other one has failed are those in which no answer leads there; in all runs both streams are
released when it returns, and the end of one direction lets the other one go on. -/
theorem hangs_iff_run (es : List Event) :
    ((∀ fs s, fs <+: es → machine.run initial fs = some s → ¬s.Stuck) ↔
        machine.Meets (fun s e => ¬s.Hangs e) initial es)
      ∧ ∀ s, machine.run initial es = some s → (s.result ≠ none → s.Released) ∧
          ∀ w, s.pump w = .done → (s.pump w.other).isOver = false → s.GoesOn w := by
  refine ⟨machine.forall_reached_iff Inv inv_step (fun hs _ => hangs_iff hs)
    (fun h => absurd rfl h) ?_, fun s hrun => ⟨inv_run hrun, fun w => (inv_run hrun).goes_on⟩⟩
  rintro ⟨-, h⟩
  exact Pump.not_stuck_of_busy rfl rfl h

/-- The side of `a` is reset and that of `b` says nothing any more. -/
def resetBeforeSilence (n : Nat) : List Event :=
  .read .aToB (.ready (.error .transport)) :: List.replicate (n + 1) (.read .bToA .pending)

/-- The call never reports the reset, however often the other side is polled in vain. -/
theorem reset_not_noticed (n : Nat) :
    ∃ s, machine.run initial (resetBeforeSilence n) = some s ∧ s.Stuck ∧ s.step .join = none := by
  have hsilent : ∀ m s, s.pump .bToA = .waiting →
      machine.run s (List.replicate m (.read .bToA .pending)) = some s := by
    -- a poll in vain leaves the state as it is
    intro m s hpc
    induction m with
    | zero => rfl
    | succ m ih =>
        refine machine.run_cons_iff.2 ⟨s, ?_, ih⟩
        have hsame : s.setPump .bToA .waiting = s := by
          unfold Pipe.setPump
          rw [← hpc, Function.update_eq_self]
        show s.step (.read .bToA .pending) = some s
        rw [step, hpc, if_pos (show Pump.waiting.isReading = true from rfl)]
        exact congrArg some hsame
  let t := (initial.setPump .aToB (.failed .transport)).setPump .bToA .waiting
  refine ⟨t, machine.run_cons_iff.2 ⟨initial.setPump .aToB (.failed .transport), rfl, ?_⟩,
    ⟨rfl, Or.inl ⟨rfl, rfl⟩⟩, rfl⟩
  exact machine.run_cons_iff.2 ⟨t, rfl, hsilent n t rfl⟩

end Pipe
end Proxy
end Erbridge
