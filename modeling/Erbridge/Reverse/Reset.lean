import Erbridge.Proxy.Pipe
import Erbridge.Reverse.Faithful

/-!
# A reset while the other side is silent

What `relay` at A makes of an error in one direction: like `pipe_bidirectional_tracked` it joins its two
copy loops, and before that it waits for B's byte whatever has become of the first one.

* `Relay.Stuck` — A has not given the connection up, one direction has failed, and the other one waits.
* `Relay.Hangs` — the polls that lead there.
* `hangs_iff_run` — the runs of the two ends in which it never comes to that, and what A holds when it
  has returned.
* `noticed_iff` — both calls together, with `reset_not_noticed` of the pipe as the run against it.
-/

namespace Erbridge
namespace Reverse
namespace Relay

open Erbridge.Core
open Proxy (Pump bufSize)
open Sni (RecordRead)

variable {name : Bytes} {resolve : Bytes → Bool} {s t : Relay}

/-- The direction to B. -/
def towards (s : Relay) : Pump := (s.pump .toB).getD .done

/-- The direction from B, which until the copy loop runs is the wait for B's byte. -/
def backwards (s : Relay) : Pump :=
  match s.front with
  | .opening => .waiting
  | _ => (s.pump .fromB).getD .done

/-- A is between the start of the first copy loop and its return. -/
def InCall (s : Relay) : Prop := s.front = .opening ∨ s.front = .relaying

/-- A has not returned, one direction has failed, and the other one waits for data or for its end. -/
def Stuck (s : Relay) : Prop := s.InCall ∧ Pump.Stuck s.towards s.backwards

/-- The direction opposite to a loop at A. -/
def opposite (s : Relay) : Loop → Option Pump
  | .toB => some s.backwards
  | .fromB => some s.towards
  | .toTarget | .toA => none

/-- A loop at A fails while the other direction waits, or is put off after that one has failed. -/
def Hangs (s : Relay) : Event → Prop
  | .read l a => s.InCall ∧ ∃ p q, s.pump l = some p ∧ p.isReading = true ∧ s.opposite l = some q ∧
      Pump.readHangs q ((s.wire l.src).pollRead bufSize a).1 = true
  | .write l a => s.InCall ∧ ∃ rest n q, s.pump l = some (.writing rest n) ∧ s.opposite l = some q ∧
      Pump.writeHangs q rest ((s.wire l.dst).pollWrite rest a).1 = true
  | _ => False

theorem not_stuck_of_front (h : ¬s.InCall) : ¬s.Stuck := fun hs => h hs.1

theorem stuck_congr (hfront : t.front = s.front) (htoB : t.pump .toB = s.pump .toB)
    (hfromB : t.pump .fromB = s.pump .fromB) : t.Stuck ↔ s.Stuck := by
  simp only [Stuck, InCall, towards, backwards, hfront, htoB, hfromB]

theorem not_inCall_dropFront (s : Relay) : ¬s.dropFront.InCall := by
  rintro (h | h)
  · cases h
  · cases h

theorem not_inCall_beginNaming (replay : Bytes) (s : Relay) : ¬(s.beginNaming replay).InCall := by
  unfold beginNaming
  split
  · exact not_inCall_dropFront s
  · rintro (h | h)
    · cases h
    · cases h

/-- While A waits for B's byte, the loop from B has not been started. -/
theorem Inv.started (h : Inv name resolve s) {p : Pump} (hp : s.pump .fromB = some p)
    (hcall : s.InCall) : s.front = .relaying := by
  rcases hcall with hfront | hfront
  · have hno := h.front
    rw [FrontOk, hfront] at hno
    have hnone := hno.fromB
    rw [hp] at hnone
    cases hnone
  · exact hfront

/-- After a poll of one of A's loops the call is stuck exactly if the answer makes it so. -/
theorem Inv.stuck_setPump_iff (h : Inv name resolve s) {l : Loop} {p q p' : Pump} {k : Link}
    {w : Wire} (hp : s.pump l = some p) (hq : s.opposite l = some q) :
    ((s.setWire k w).setPump l p').Stuck ↔ s.InCall ∧ Pump.Stuck p' q := by
  cases l with
  | toB =>
      obtain rfl := Option.some.inj hq
      have htowards : ((s.setWire k w).setPump .toB p').towards = p' := by
        simp [towards, setPump]
      have hbackwards : ((s.setWire k w).setPump .toB p').backwards = s.backwards := by
        simp [backwards, setPump, setWire]
      rw [Stuck, htowards, hbackwards]
      exact Iff.rfl
  | fromB =>
      obtain rfl := Option.some.inj hq
      refine and_congr_right fun hcall => ?_
      have hfront := h.started hp hcall
      have htowards : ((s.setWire k w).setPump .fromB p').towards = s.towards := by
        simp [towards, setPump, setWire]
      have hbackwards : ((s.setWire k w).setPump .fromB p').backwards = p' := by
        simp [backwards, setPump, setWire, hfront]
      rw [htowards, hbackwards]
      exact ⟨Pump.Stuck.symm, Pump.Stuck.symm⟩
  | toTarget | toA => cases hq

/-- A poll of one of B's loops is none of A's business. -/
theorem stuck_setPump_inbound {l : Loop} {p' : Pump} {k : Link} {w : Wire}
    (hl : s.opposite l = none) : ((s.setWire k w).setPump l p').Stuck ↔ s.Stuck := by
  cases l with
  | toB | fromB => cases hl
  | toTarget | toA =>
      refine stuck_congr rfl ?_ ?_
      · simp [setPump, setWire]
      · simp [setPump, setWire]

theorem hangs_read_iff (h : Inv name resolve s) (hnot : ¬s.Stuck) {l : Loop} {a : ReadAnswer} :
    ¬s.Hangs (.read l a) ↔ ∀ t, s.step name resolve (.read l a) = some t → ¬t.Stuck := by
  simp only [Hangs, step]
  cases hp : s.pump l with
  | none => simp
  | some p =>
      by_cases hreading : p.isReading = true
      case neg => simp [hreading]
      simp only [hreading, if_true, Option.some.injEq, forall_eq']
      cases hq : s.opposite l with
      | none =>
          rw [stuck_setPump_inbound hq]
          simp [hnot]
      | some q =>
          rw [h.stuck_setPump_iff hp hq, Pump.stuck_onRead_iff]
          simp [hreading]

theorem hangs_write_iff (h : Inv name resolve s) (hnot : ¬s.Stuck) {l : Loop} {a : WriteAnswer} :
    ¬s.Hangs (.write l a) ↔ ∀ t, s.step name resolve (.write l a) = some t → ¬t.Stuck := by
  simp only [Hangs, step]
  cases hp : s.pump l with
  | none => simp
  | some p =>
      cases p with
      | writing rest n =>
          simp only [Option.some.injEq, forall_eq']
          cases hq : s.opposite l with
          | none =>
              rw [stuck_setPump_inbound hq]
              simp [hnot]
          | some q =>
              rw [h.stuck_setPump_iff hp hq, Pump.stuck_onWrite_iff]
              refine not_congr (and_congr_right fun _ => ⟨?_, fun hw => ⟨rest, n, q, rfl, rfl, hw⟩⟩)
              rintro ⟨rest', n', q', hw, hq', hangs⟩
              cases hw
              cases hq'
              exact hangs
      | shuttingDown =>
          simp only [Option.some.injEq, forall_eq']
          cases hq : s.opposite l with
          | none =>
              rw [stuck_setPump_inbound hq]
              simp [hnot]
          | some q =>
              rw [h.stuck_setPump_iff hp hq]
              simp [Pump.not_stuck_onShutdown]
      | reading | waiting | done | failed => simp

/-- It is a step of B or of the rest of the world. -/
def Event.inbound : Event → Bool
  | .header _ | .dial _ | .answer _ | .visitorSends _ | .visitorCloses | .targetSends _
  | .targetCloses | .finishInbound | .cancelInbound => true
  | _ => false

/-- What B does, and the rest of the world, changes nothing at A. -/
theorem inbound_step {e : Event} (he : e.inbound = true)
    (hstep : s.step name resolve e = some t) :
    t.front = s.front ∧ t.pump .toB = s.pump .toB ∧ t.pump .fromB = s.pump .fromB := by
  cases e with
  | header a =>
      simp only [step] at hstep
      split at hstep
      · split at hstep
        · split at hstep <;> cases hstep <;> exact ⟨rfl, rfl, rfl⟩
        · cases hstep
          exact ⟨rfl, rfl, rfl⟩
        · cases hstep
          exact ⟨rfl, rfl, rfl⟩
      · cases hstep
  | dial ok =>
      simp only [step] at hstep
      split at hstep
      · cases hstep
        exact ⟨rfl, rfl, rfl⟩
      · cases hstep
  | answer a =>
      simp only [step] at hstep
      split at hstep
      · split at hstep
        · split at hstep <;> cases hstep <;> exact ⟨rfl, rfl, rfl⟩
        · cases hstep
          exact ⟨rfl, rfl, rfl⟩
        · cases hstep
          exact ⟨rfl, rfl, rfl⟩
      · split at hstep
        · split at hstep <;> cases hstep <;> exact ⟨rfl, rfl, rfl⟩
        · cases hstep
          exact ⟨rfl, rfl, rfl⟩
        · cases hstep
          exact ⟨rfl, rfl, rfl⟩
      · cases hstep
  | visitorSends bytes =>
      simp only [step] at hstep
      split at hstep
      · cases hstep
      · cases hstep
        exact ⟨rfl, rfl, rfl⟩
  | visitorCloses =>
      cases hstep
      exact ⟨rfl, rfl, rfl⟩
  | targetSends bytes =>
      simp only [step] at hstep
      split at hstep
      · cases hstep
      · cases hstep
        exact ⟨rfl, rfl, rfl⟩
  | targetCloses =>
      simp only [step] at hstep
      split at hstep
      · cases hstep
      · cases hstep
        exact ⟨rfl, rfl, rfl⟩
  | finishInbound =>
      simp only [step] at hstep
      split at hstep
      · cases hstep
        exact ⟨rfl, rfl, rfl⟩
      · cases hstep
  | cancelInbound =>
      simp only [step] at hstep
      split at hstep <;> cases hstep <;> exact ⟨rfl, rfl, rfl⟩
  | _ => cases he

theorem not_stuck_of_inbound (hnot : ¬s.Stuck) {e : Event} (he : e.inbound = true)
    (hstep : s.step name resolve e = some t) : ¬t.Stuck := by
  obtain ⟨hfront, htoB, hfromB⟩ := inbound_step he hstep
  rwa [stuck_congr hfront htoB hfromB]

/-- What A has given up it does not hold any more: its two loops have ended. -/
def Released (s : Relay) : Prop :=
  s.front = .dropped → ∀ l, l = .toB ∨ l = .fromB → ∀ p, s.pump l = some p → p.isOver = true

theorem isOver_of_returned {p : Pump} (h : returned (some p) = true) : p.isOver = true := by
  cases p <;> simp_all [returned, Pump.isOver]

theorem released_dropFront (s : Relay) : s.dropFront.Released := by
  intro _ l hl p hp
  have habort : s.dropFront.pump l = abort (s.pump l) := if_pos hl
  rw [habort, abort] at hp
  split at hp
  · rename_i hreturned
    rw [hp] at hreturned
    exact isOver_of_returned hreturned
  · cases hp

theorem released_of_front (h : t.front ≠ .dropped) : t.Released := fun hfront => absurd hfront h

theorem released_beginNaming (replay : Bytes) (s : Relay) : (s.beginNaming replay).Released := by
  unfold beginNaming
  split
  · exact released_dropFront s
  · exact released_of_front (by simp)

/-- It is a step of `relay` itself, its two copy loops apart. -/
def Event.isFront : Event → Bool
  | .peek _ _ | .name _ | .status _ | .finishFront | .cancelFront => true
  | _ => false

/-- By itself A gives up both loops or none, and the one that it starts has not failed. -/
theorem front_step {e : Event} (he : e.isFront = true) (hstep : s.step name resolve e = some t) :
    (¬s.Stuck → ¬t.Stuck) ∧ t.Released := by
  have hdrop : ∀ u : Relay, (¬s.Stuck → ¬u.dropFront.Stuck) ∧ u.dropFront.Released := fun u =>
    ⟨fun _ => not_stuck_of_front (not_inCall_dropFront u), released_dropFront u⟩
  cases e with
  | peek a found =>
      simp only [step] at hstep
      split at hstep
      · split at hstep
        · split at hstep
          · cases hstep
            exact ⟨fun _ => not_stuck_of_front (not_inCall_beginNaming _ _), released_beginNaming _ _⟩
          · cases hstep
            exact hdrop _
        · cases hstep
          exact hdrop _
        · cases hstep
          refine ⟨fun _ => not_stuck_of_front ?_, released_of_front (by simp)⟩
          simp [InCall]
      · cases hstep
  | name a =>
      simp only [step] at hstep
      split at hstep
      · split at hstep
        · cases hstep
          refine ⟨fun _ => ?_, released_of_front (by simp)⟩
          rintro ⟨-, hstuck⟩
          -- the loop to B starts with what `peek` has read, or without anything
          have hbusy : ∀ q, ¬Pump.Stuck (startToB s.replay) q := by
            intro q
            unfold startToB
            split
            · exact Pump.not_stuck_of_busy rfl rfl
            · exact Pump.not_stuck_of_busy rfl rfl
          exact hbusy _ (by simpa [towards, setPump, setWire] using hstuck)
        · cases hstep
          exact hdrop _
        · cases hstep
          refine ⟨fun _ => not_stuck_of_front ?_, released_of_front (by simp)⟩
          simp [InCall]
      · cases hstep
  | status a =>
      simp only [step] at hstep
      split at hstep
      · rename_i hfront
        split at hstep
        · cases hstep
          exact hdrop _
        · cases hstep
          refine ⟨fun hnot ht => hnot ((stuck_congr rfl rfl rfl).1 ht), released_of_front ?_⟩
          simp [setWire, hfront]
        · split at hstep
          · cases hstep
            refine ⟨fun _ => ?_, released_of_front (by simp)⟩
            rintro ⟨-, hstuck⟩
            -- B's byte is here, and the loop from B is about to read
            have hbackwards : Pump.Stuck s.towards .reading := by
              simpa [towards, backwards, setPump, setWire] using hstuck
            exact Pump.not_stuck_of_busy rfl rfl hbackwards.symm
          · cases hstep
            exact hdrop _
      · cases hstep
  | finishFront =>
      simp only [step] at hstep
      split at hstep
      · split at hstep
        · cases hstep
          exact hdrop _
        · cases hstep
      · cases hstep
  | cancelFront =>
      cases hstep
      exact hdrop _
  | _ => cases he

theorem hangs_iff (h : Inv name resolve s) (hnot : ¬s.Stuck) {e : Event} :
    ¬s.Hangs e ↔ ∀ t, s.step name resolve e = some t → ¬t.Stuck := by
  cases e with
  | read l a => exact hangs_read_iff h hnot
  | write l a => exact hangs_write_iff h hnot
  | peek | name | status | finishFront | cancelFront =>
      exact iff_of_true (fun hh => hh) fun t ht => (front_step rfl ht).1 hnot
  | _ => exact iff_of_true (fun hh => hh) fun t ht => not_stuck_of_inbound hnot rfl ht

/-- A loop that can be polled has not ended, so A has not given it up. -/
theorem Released.setPump (h : s.Released) {l : Loop} {p p' : Pump} {k : Link} {w : Wire}
    (hp : s.pump l = some p) (hover : p.isOver = false) :
    ((s.setWire k w).setPump l p').Released := by
  intro hfront l' hl' q hq
  by_cases heq : l' = l
  · subst heq
    rw [h hfront l' hl' p hp] at hover
    cases hover
  · exact h hfront l' hl' q (by simpa [Relay.setPump, setWire, heq] using hq)

theorem released_step {e : Event} (h : s.Released) (hstep : s.step name resolve e = some t) :
    t.Released := by
  cases he : e.inbound with
  | true =>
      obtain ⟨hfront, htoB, hfromB⟩ := inbound_step he hstep
      intro hdropped l hl p hp
      refine h (hfront ▸ hdropped) l hl p ?_
      rcases hl with rfl | rfl
      · rw [← htoB, hp]
      · rw [← hfromB, hp]
  | false =>
      cases e with
      | read l a =>
          simp only [step] at hstep
          split at hstep
          · rename_i p hp
            split at hstep
            · rename_i hreading
              cases hstep
              exact h.setPump hp (Proxy.Pipe.isOver_of_isReading hreading)
            · cases hstep
          · cases hstep
      | write l a =>
          simp only [step] at hstep
          split at hstep
          · rename_i rest n hp
            cases hstep
            exact h.setPump hp rfl
          · rename_i hp
            cases hstep
            exact h.setPump hp rfl
          · cases hstep
      | peek | name | status | finishFront | cancelFront => exact (front_step rfl hstep).2
      | _ => cases he

theorem released_initial (seen : Option Bytes) : (initial name seen).Released := by
  cases seen with
  | none => exact released_of_front (by simp [initial, incoming])
  | some replay => exact released_beginNaming _ _

/-- A loop of A goes on: the call does not return before it, it can be polled whatever its streams
answer, and nothing that happens to the others, an end of file included, disturbs it. -/
def GoesOn (name : Bytes) (resolve : Bytes → Bool) (s : Relay) (l : Loop) : Prop :=
  s.step name resolve .finishFront = none ∧
    (∀ a b, (s.step name resolve (.read l a)).isSome ∨ (s.step name resolve (.write l b)).isSome) ∧
    ∀ e t, e.polls l = false → e.cancels = false → s.step name resolve e = some t →
      Undisturbed s t l ∨ l = .toB ∧ s.Refused e

theorem Inv.goes_on (h : Inv name resolve s) {l : Loop} (hl : l = .toB ∨ l = .fromB)
    (hrunning : s.Running l) : s.GoesOn name resolve l := by
  refine ⟨?_, hrunning.can_poll, fun e t hpolls hcancels hstep =>
    undisturbed_step h hrunning hpolls hcancels hstep⟩
  simp only [step]
  split
  · rw [if_neg]
    rintro ⟨htoB, hfromB⟩
    rcases hl with rfl | rfl
    · rw [hrunning.2] at htoB
      cases htoB
    · rw [hrunning.2] at hfromB
      cases hfromB
  · rfl

theorem initial_not_stuck (seen : Option Bytes) : ¬(initial name seen).Stuck := by
  cases seen with
  | none =>
      rintro ⟨hcall, -⟩
      rcases hcall with hcall | hcall
      · cases hcall
      · cases hcall
  | some replay => exact not_stuck_of_front (not_inCall_beginNaming _ _)

/-- **When `relay` waits for the wrong thing.**  The runs of the two ends in which A never waits for one
direction after the other one has failed are those in which no poll of A's leads there; in all runs A
holds nothing when it has returned, and a loop that has not ended goes on. -/
theorem hangs_iff_run (name : Bytes) (resolve : Bytes → Bool) (seen : Option Bytes)
    (es : List Event) :
    ((∀ fs s, fs <+: es → (machine name resolve).run (initial name seen) fs = some s → ¬s.Stuck) ↔
        (machine name resolve).Meets (fun s e => ¬s.Hangs e) (initial name seen) es)
      ∧ ∀ s, (machine name resolve).run (initial name seen) es = some s → s.Released ∧
          ∀ l, l = .toB ∨ l = .fromB → s.Running l → s.GoesOn name resolve l := by
  refine ⟨(machine name resolve).forall_reached_iff (Inv name resolve) inv_step
    (fun h hnot => hangs_iff h hnot) (inv_initial name resolve seen) (initial_not_stuck seen),
    fun s hrun => ⟨?_, fun l hl => (inv_run hrun).goes_on hl⟩⟩
  exact (machine name resolve).run_invariant Released released_step (released_initial seen) hrun

/-- A's two copy loops run. -/
def isRelaying (s : Relay) : Bool :=
  match s.front with
  | .relaying => true
  | _ => false

theorem front_of_isRelaying (h : s.isRelaying = true) : s.front = .relaying := by
  unfold isRelaying at h
  split at h
  · assumption
  · cases h

end Relay

/-- **A reset is noticed** by both calls in exactly the runs in which no direction fails while the other
one waits, and none is put off after the other one has failed. -/
theorem noticed_iff (es : List Proxy.Pipe.Event) (name : Core.Bytes)
    (resolve : Core.Bytes → Bool) (seen : Option Core.Bytes) (ls : List Relay.Event) :
    (((∀ fs s, fs <+: es → Proxy.Pipe.machine.run .initial fs = some s → ¬s.Stuck) ↔
          Proxy.Pipe.machine.Meets (fun s e => ¬s.Hangs e) .initial es)
        ∧ ∀ s, Proxy.Pipe.machine.run .initial es = some s → (s.result ≠ none → s.Released) ∧
            ∀ w, s.pump w = .done → (s.pump w.other).isOver = false → s.GoesOn w)
      ∧ ((∀ fs s, fs <+: ls → (Relay.machine name resolve).run (.initial name seen) fs = some s →
              ¬s.Stuck) ↔
            (Relay.machine name resolve).Meets (fun s e => ¬s.Hangs e) (.initial name seen) ls)
          ∧ ∀ s, (Relay.machine name resolve).run (.initial name seen) ls = some s → s.Released ∧
              ∀ l, l = .toB ∨ l = .fromB → s.Running l → s.GoesOn name resolve l :=
  ⟨Proxy.Pipe.hangs_iff_run es, Relay.hangs_iff_run name resolve seen ls⟩

/-- A visitor is relayed, its side is reset while the target is silent, and A waits for the target. -/
def visitorReset : List Relay.Event :=
  [.name (.upTo 9), .name (.upTo 9), .name (.upTo 0), .header (.upTo 1), .header (.upTo 4),
    .dial true, .answer (.upTo 0), .status (.upTo 0), .read .fromB .pending, .read .toB .fail]

/-- Neither call is without such a run. -/
theorem reset_hangs :
    (¬∀ es s, Proxy.Pipe.machine.run .initial es = some s → ¬s.Stuck) ∧
      ¬∀ name resolve seen es s,
        (Relay.machine name resolve).run (.initial name seen) es = some s → ¬s.Stuck := by
  constructor
  · intro h
    obtain ⟨s, hrun, hstuck, -⟩ := Proxy.Pipe.reset_not_noticed 0
    exact h _ s hrun hstuck
  · intro h
    have hend : ((Relay.machine [98] (fun n => n == [98])).run (.initial [98] (some []))
        visitorReset).map (fun s => (s.isRelaying, s.towards.isFailed, s.backwards.isWaiting)) =
          some (true, true, true) := by
      decide +kernel
    obtain ⟨s, hrun, hstate⟩ := Option.map_eq_some_iff.1 hend
    obtain ⟨hrelaying, hstate⟩ := Prod.mk.inj hstate
    obtain ⟨hfailed, hwaiting⟩ := Prod.mk.inj hstate
    exact h _ _ _ _ s hrun
      ⟨Or.inr (Relay.front_of_isRelaying hrelaying), Or.inl ⟨hfailed, hwaiting⟩⟩

end Reverse
end Erbridge
