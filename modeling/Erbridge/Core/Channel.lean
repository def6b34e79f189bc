import Erbridge.Core.Wire
import Mathlib.Logic.Function.Basic

/-!
# Two-way byte channels

A `Channel` is what two parties talk over, as far as those can see it who use its two ends: a stream
at each end, which is there after some moves of the channel's own (its handshakes) and is polled from
then on.  What goes on in between is the channel's business.

* `Poll.accepted`, `Poll.delivered` — what the answer of a poll says was taken or handed over.
* `Logs` — what was accepted and delivered at each end so far.
* `Channel.Reliable` — an invariant of the channel and its logs, and what the logs promise: what is
  delivered at one end is a prefix of what was accepted at the other, all of it at an end of file that
  the other end has asked for.
-/

namespace Erbridge
namespace Core

/-- The front of `buf` that a `poll_write` took. -/
def Poll.accepted (buf : Bytes) : Poll Nat → Bytes
  | .ready (.ok n) => buf.take n
  | _ => []

/-- The bytes that a `poll_read` delivered. -/
def Poll.delivered : Poll Bytes → Bytes
  | .ready (.ok bytes) => bytes
  | _ => []

/-- A `poll_write` of `buf` has not taken more than that. -/
def Poll.Within (buf : Bytes) (p : Poll Nat) : Prop := ∀ n, p = .ready (.ok n) → n ≤ buf.length

/-- What a poll of a wire answers is what it does to the wire. -/
theorem Wire.pollWrite_accepted (w : Wire) (buf : Bytes) (a : WriteAnswer) :
    (w.pollWrite buf a).2 = w.push ((w.pollWrite buf a).1.accepted buf) ∧
      (w.pollWrite buf a).1.Within buf := by
  rcases w.pollWrite_cases buf a with heq | ⟨-, heq⟩ | ⟨-, heq⟩ | ⟨n, -, -, heq⟩
  · rw [heq]
    exact ⟨by simp [Poll.accepted], fun n h => by cases h⟩
  · rw [heq]
    exact ⟨by simp [Poll.accepted], fun n h => by cases h⟩
  · rw [heq]
    refine ⟨by simp [Poll.accepted], fun n h => ?_⟩
    injection h with h
    injection h with h
    omega
  · rw [heq]
    constructor
    · show w.push (buf.take (n + 1)) = w.push (buf.take (min (n + 1) buf.length))
      rw [List.take_eq_take_min]
    · intro m h
      injection h with h
      injection h with h
      omega

theorem Wire.pollRead_delivered (w : Wire) {room : Nat} (hroom : 0 < room) (a : ReadAnswer) :
    (w.pollRead room a).2 = w.advance (w.pollRead room a).1.delivered.length ∧
      ∃ rest, w.unread = (w.pollRead room a).1.delivered ++ rest := by
  rcases w.pollRead_cases a hroom with
    heq | ⟨-, heq⟩ | ⟨-, -, heq⟩ | ⟨got, rest, -, hunread, -, heq⟩
  · rw [heq]
    exact ⟨rfl, w.unread, rfl⟩
  · rw [heq]
    exact ⟨rfl, w.unread, rfl⟩
  · rw [heq]
    exact ⟨rfl, w.unread, rfl⟩
  · rw [heq]
    exact ⟨rfl, rest, hunread⟩

/-- An empty read is the end of the wire. -/
theorem Wire.pollRead_eof {w : Wire} {room : Nat} (hroom : 0 < room) {a : ReadAnswer}
    (h : (w.pollRead room a).1 = .ready (.ok [])) : w.unread = [] ∧ w.ended = true := by
  rcases w.pollRead_cases a hroom with
    heq | ⟨-, heq⟩ | ⟨hunread, hended, -⟩ | ⟨got, rest, hgot, -, -, heq⟩
  · rw [heq] at h
    cases h
  · rw [heq] at h
    cases h
  · exact ⟨hunread, hended⟩
  · rw [heq] at h
    simp [hgot] at h

/-- A `poll_shutdown` was answered Ready. -/
def Poll.isShut : Poll Unit → Bool
  | .ready (.ok ()) => true
  | _ => false

theorem Poll.eq_of_isShut {p : Poll Unit} (h : p.isShut = true) : p = .ready (.ok ()) := by
  match p with
  | .ready (.ok ()) => rfl
  | .ready (.error e) | .pending | .panic => cases h

/-- The two ends of a channel. -/
inductive End
  | near
  | far
deriving DecidableEq, Repr

/-- The other end. -/
def End.other : End → End
  | .near => .far
  | .far => .near

@[simp] theorem End.other_other (x : End) : x.other.other = x := by
  cases x with
  | near | far => rfl

theorem End.other_ne (x : End) : x.other ≠ x := by
  cases x with
  | near | far => simp [End.other]

theorem End.eq_other_of_ne {x y : End} (h : y ≠ x) : y = x.other := by
  cases x with
  | near | far =>
      cases y with
      | near | far => simp_all [End.other]

/-- A channel between two ends.  `none` says that something is not possible; a poll is not where the
end has no stream. -/
structure Channel where
  State : Type
  Event : Type
  start : State
  /-- A step of what the channel does of its own. -/
  move : State → Event → Option State
  /-- The end has a stream. -/
  isOpen : State → End → Bool
  /-- `poll_write`. -/
  write : State → End → Bytes → List WriteAnswer → Option (Poll Nat × State)
  /-- `poll_read`. -/
  read : State → End → List ReadAnswer → Option (Poll Bytes × State)
  /-- `poll_shutdown`. -/
  shutdown : State → End → List WriteAnswer → Option (Poll Unit × State)
  /-- The end drops its stream, or gives up before it has one. -/
  drop : State → End → State

/-- What was done at the two ends so far. -/
structure Logs where
  accepted : End → Bytes
  delivered : End → Bytes
  /-- A shutdown was answered Ready. -/
  closed : End → Bool
  dropped : End → Bool

namespace Logs

def empty : Logs where
  accepted := fun _ => []
  delivered := fun _ => []
  closed := fun _ => false
  dropped := fun _ => false

/-- A write at `x` was accepted. -/
def write (l : Logs) (x : End) (bytes : Bytes) : Logs :=
  { l with accepted := Function.update l.accepted x (l.accepted x ++ bytes) }

/-- A read at `x` has delivered. -/
def read (l : Logs) (x : End) (bytes : Bytes) : Logs :=
  { l with delivered := Function.update l.delivered x (l.delivered x ++ bytes) }

/-- A shutdown at `x` was answered. -/
def shutdown (l : Logs) (x : End) (shut : Bool) : Logs :=
  { l with closed := Function.update l.closed x (l.closed x || shut) }

def drop (l : Logs) (x : End) : Logs := { l with dropped := Function.update l.dropped x true }

variable (l : Logs) (x : End)

@[simp] theorem accepted_write_self (bytes : Bytes) :
    (l.write x bytes).accepted x = l.accepted x ++ bytes := Function.update_self _ _ _

@[simp] theorem accepted_write_other (bytes : Bytes) :
    (l.write x bytes).accepted x.other = l.accepted x.other := Function.update_of_ne x.other_ne _ _

@[simp] theorem delivered_read_self (bytes : Bytes) :
    (l.read x bytes).delivered x = l.delivered x ++ bytes := Function.update_self _ _ _

@[simp] theorem delivered_read_other (bytes : Bytes) :
    (l.read x bytes).delivered x.other = l.delivered x.other := Function.update_of_ne x.other_ne _ _

@[simp] theorem closed_shutdown_self (shut : Bool) :
    (l.shutdown x shut).closed x = (l.closed x || shut) := Function.update_self _ _ _

@[simp] theorem closed_shutdown_other (shut : Bool) :
    (l.shutdown x shut).closed x.other = l.closed x.other := Function.update_of_ne x.other_ne _ _

@[simp] theorem dropped_drop_self : (l.drop x).dropped x = true := Function.update_self _ _ _

@[simp] theorem dropped_drop_other : (l.drop x).dropped x.other = l.dropped x.other :=
  Function.update_of_ne x.other_ne _ _

@[simp] theorem read_nil : l.read x [] = l := by
  simp [read]

@[simp] theorem write_nil : l.write x [] = l := by
  simp [write]

@[simp] theorem shutdown_false : l.shutdown x false = l := by
  simp [shutdown]

end Logs

/-- A channel that loses and adds nothing, with the invariant that says why. -/
structure Channel.Reliable (C : Channel) where
  Inv : C.State → Logs → Prop
  start : Inv C.start Logs.empty
  move : ∀ {s t l e}, Inv s l → C.move s e = some t → Inv t l
  write : ∀ {s t l x buf script p}, Inv s l → l.closed x = false →
    C.write s x buf script = some (p, t) → p.Within buf ∧ Inv t (l.write x (p.accepted buf))
  read : ∀ {s t l x script p}, Inv s l → C.read s x script = some (p, t) →
    Inv t (l.read x p.delivered)
  /-- It fails only when the end was shut down or dropped before. -/
  shutdown : ∀ {s t l x script p}, Inv s l → l.closed x = false → l.dropped x = false →
    C.shutdown s x script = some (p, t) → (∀ e, p ≠ .ready (.error e)) ∧ Inv t (l.shutdown x p.isShut)
  drop : ∀ {s l} x, Inv s l → Inv (C.drop s x) (l.drop x)
  delivered_isPrefix : ∀ {s l} x, Inv s l → l.delivered x <+: l.accepted x.other
  /-- The end of file comes when the other end was shut down or dropped; in the first case all that it
  has accepted is delivered. -/
  eof : ∀ {s t l x script}, Inv s l → C.read s x script = some (.ready (.ok []), t) →
    (l.closed x.other = true ∧ l.delivered x = l.accepted x.other)
      ∨ (l.closed x.other = false ∧ l.dropped x.other = true)

end Core
end Erbridge
