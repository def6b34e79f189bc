import Erbridge.Core.Machine
import Erbridge.Noise.Stream
import Mathlib.Data.List.Infix

/-!
# A Noise stream under attack

The sender writes to one wire and the receiver reads from another, on which the attacker puts whatever
bytes it likes.  All that stands between is the authentication: the receiver opens under its counter
only what the sender encrypted under the same one.

* `Aead` — an ideal cipher, which remembers what it has encrypted.
* `Tamper.step` — a call of the sender, a move of the attacker or a read of the receiver.
* `Tamper.tamper_safe` — whatever is on the wire, what is delivered is a prefix of what was encrypted,
  and so of what was accepted, and no read indexes outside its buffers.
-/

namespace Erbridge
namespace Noise

open Erbridge.Core

/-- A cipher that remembers what it has encrypted: what it decrypts depends on it. -/
structure Aead where
  encrypt : Nat → Bytes → Option Bytes
  decrypt : List (Bytes × Bytes) → Nat → Bytes → Option Bytes
  residue : Nat → Bytes → Bytes

namespace Aead

/-- The cipher when `log` has been encrypted. -/
def cipher (A : Aead) (log : List (Bytes × Bytes)) : Cipher where
  encrypt := A.encrypt
  decrypt := A.decrypt log
  residue := A.residue

/-- Under the number `n` nothing is opened but the `n`-th ciphertext. -/
def Ideal (A : Aead) : Prop :=
  ∀ log n p c, A.decrypt log n c = some p → log[n]? = some (p, c)

end Aead

/-- The two streams, the two wires and what has come of them. -/
structure Tamper where
  sender : NoiseStream
  outgoing : Wire
  receiver : NoiseStream
  /-- What the attacker lets the receiver see. -/
  incoming : Wire
  /-- The plaintexts that were encrypted, with their ciphertexts. -/
  log : List (Bytes × Bytes)
  /-- The bytes that the sender's `poll_write` reported as accepted. -/
  accepted : Bytes
  /-- A `poll_write` of the sender reported an error for a chunk that it had encrypted. -/
  refused : Bool
  /-- The bytes that the receiver's `poll_read` has delivered. -/
  delivered : Bytes

namespace Tamper

/-- Both sides have just entered transport mode. -/
def initial : Tamper where
  sender := NoiseStream.new
  outgoing := Wire.empty
  receiver := NoiseStream.new
  incoming := Wire.empty
  log := []
  accepted := []
  refused := false
  delivered := []

inductive Event
  | write (buf : Bytes) (script : List WriteAnswer)
  | flush (script : List WriteAnswer)
  | shutdown (script : List WriteAnswer)
  /-- The attacker puts bytes of its choice on the receiver's wire. -/
  | feed (bytes : Bytes)
  /-- The attacker makes the receiver's wire look ended, or open again. -/
  | setEnded (ended : Bool)
  | read (room : Nat) (script : List ReadAnswer)

/-- What the cipher encrypted in a `poll_write`, as its counter tells. -/
def encrypted (A : Aead) (st : NoiseStream) (buf : Bytes) (r : NoiseStream.Wrote) :
    List (Bytes × Bytes) :=
  if r.stream.sending = st.sending then []
  else
    let chunk := buf.take (min buf.length maxPlaintext)
    [(chunk, (A.encrypt st.sending chunk).getD [])]

/-- The answer is an error. -/
def isError : Poll Nat → Bool
  | .ready (.error _) => true
  | _ => false

def step (A : Aead) (s : Tamper) : Event → Option Tamper
  | .write buf script =>
      let r := s.sender.pollWrite (A.cipher s.log) buf s.outgoing script
      let log := encrypted A s.sender buf r
      some { s with
        sender := r.stream
        outgoing := r.wire
        log := s.log ++ log
        accepted := s.accepted ++ r.accepted buf
        refused := s.refused || (isError r.answer && !log.isEmpty) }
  | .flush script =>
      let r := s.sender.pollFlush s.outgoing script
      some { s with sender := r.stream, outgoing := r.wire }
  | .shutdown script =>
      let r := s.sender.pollShutdown s.outgoing script
      some { s with sender := r.stream, outgoing := r.wire }
  | .feed bytes => some { s with incoming := s.incoming.push bytes }
  | .setEnded ended => some { s with incoming := { s.incoming with ended := ended } }
  | .read room script =>
      let r := s.receiver.pollRead (A.cipher s.log) room s.incoming script
      some { s with
        receiver := r.stream
        incoming := r.wire
        delivered := s.delivered ++ r.out }

def machine (A : Aead) : Machine Tamper Event where
  step := step A

/-- The counters count the entries of the log that were encrypted and opened, and what was opened is
delivered or waits in the plaintext buffer. -/
structure Inv (s : Tamper) (opened : List (Bytes × Bytes)) : Prop where
  sender : s.sender.Ok
  receiver : s.receiver.Ok
  sending_eq : s.sender.sending = s.log.length
  receiving_eq : s.receiver.receiving = opened.length
  opened_prefix : opened <+: s.log
  delivered_eq : s.delivered ++ s.receiver.buffered = opened.flatMap Prod.fst
  accepted_eq : s.refused = false → s.accepted = s.log.flatMap Prod.fst

theorem inv_initial : Inv initial [] where
  sender := NoiseStream.new_ok
  receiver := NoiseStream.new_ok
  sending_eq := rfl
  receiving_eq := rfl
  opened_prefix := List.nil_prefix
  delivered_eq := by simp [initial]
  accepted_eq := fun _ => rfl

/-- The cipher's record of a write is the log of the write. -/
theorem encrypted_eq {A : Aead} {log : List (Bytes × Bytes)} {st : NoiseStream} {buf : Bytes}
    {wire : Wire} {script : List WriteAnswer} {r : NoiseStream.Wrote} {pushed : Bytes}
    {done : List (Bytes × Bytes)}
    (h : NoiseStream.WriteSpec (A.cipher log) st buf wire script r pushed done) :
    encrypted A st buf r = done := by
  have hsending := h.sending_eq
  rcases h.log_eq with hnil | ⟨-, c, hlog⟩
  · rw [hnil, List.length_nil, Nat.add_zero] at hsending
    rw [encrypted, if_pos hsending, hnil]
  · have hne : r.stream.sending ≠ st.sending := by
      rw [hsending, hlog, List.length_singleton]
      omega
    have hseals := h.sealed
    rw [hlog] at hseals
    have henc : A.encrypt st.sending (buf.take (min buf.length maxPlaintext)) = some c := hseals.1
    rw [encrypted, if_neg hne, hlog]
    simp only [henc, Option.getD_some]

theorem Inv.write {A : Aead} {s : Tamper} {opened : List (Bytes × Bytes)} (h : Inv s opened)
    (buf : Bytes) (script : List WriteAnswer) {t : Tamper}
    (hstep : step A s (.write buf script) = some t) : Inv t opened := by
  obtain ⟨pushed, done, hr⟩ :=
    NoiseStream.pollWrite_spec (A.cipher s.log) h.sender buf s.outgoing script
  have hdone := encrypted_eq hr
  simp only [step, Option.some.injEq] at hstep
  generalize s.sender.pollWrite (A.cipher s.log) buf s.outgoing script = r at hr hdone hstep
  rw [hdone] at hstep
  subst hstep
  exact {
    sender := hr.ok
    receiver := h.receiver
    sending_eq := by
      show r.stream.sending = (s.log ++ done).length
      rw [hr.sending_eq, h.sending_eq, List.length_append]
    receiving_eq := h.receiving_eq
    opened_prefix := h.opened_prefix.trans (List.prefix_append _ _)
    delivered_eq := h.delivered_eq
    accepted_eq := by
      intro hrefused
      simp only [Bool.or_eq_false_iff] at hrefused
      show s.accepted ++ r.accepted buf = (s.log ++ done).flatMap Prod.fst
      rcases hr.accepted_cases with heq | ⟨e, x, hanswer, hlog, -⟩
      · rw [h.accepted_eq hrefused.1, List.flatMap_append, heq]
      · have hfalse := hrefused.2
        rw [hanswer, hlog] at hfalse
        cases hfalse }

/-- A flush or a shutdown encrypts nothing. -/
theorem Inv.flush {s : Tamper} {opened : List (Bytes × Bytes)} (h : Inv s opened)
    {r : NoiseStream.Flushed} {pushed : Bytes}
    (hr : NoiseStream.FlushSpec s.sender s.outgoing r pushed) :
    Inv { s with sender := r.stream, outgoing := r.wire } opened where
  sender := hr.ok
  receiver := h.receiver
  sending_eq := by
    show r.stream.sending = s.log.length
    rw [hr.stream_eq, ← h.sending_eq]
  receiving_eq := h.receiving_eq
  opened_prefix := h.opened_prefix
  delivered_eq := h.delivered_eq
  accepted_eq := h.accepted_eq

/-- A read opens entries of the log, from the one on that its counter names. -/
theorem Inv.read {A : Aead} (hA : A.Ideal) {s : Tamper} {opened : List (Bytes × Bytes)}
    (h : Inv s opened) (room : Nat) (script : List ReadAnswer) {t : Tamper}
    (hstep : step A s (.read room script) = some t) : ∃ more, Inv t (opened ++ more) := by
  obtain ⟨got, more, bad, hr⟩ :=
    NoiseStream.pollRead_spec (A.cipher s.log) room h.receiver s.incoming script
  simp only [step, Option.some.injEq] at hstep
  generalize s.receiver.pollRead (A.cipher s.log) room s.incoming script = r at hr hstep
  subst hstep
  refine ⟨more, ?_⟩
  have hopened : Numbered (A.cipher s.log).Opens opened.length more := by
    rw [← h.receiving_eq]
    exact hr.opened
  exact {
    sender := h.sender
    receiver := hr.ok
    sending_eq := h.sending_eq
    receiving_eq := by
      show r.stream.receiving = (opened ++ more).length
      rw [hr.receiving_eq, h.receiving_eq, List.length_append]
    opened_prefix :=
      append_prefix_of_logged (fun n p c hdec => hA s.log n p c hdec) h.opened_prefix hopened
    delivered_eq := by
      show s.delivered ++ r.out ++ r.stream.buffered = _
      rw [List.append_assoc, ← hr.buffered_eq, ← List.append_assoc, h.delivered_eq,
        List.flatMap_append]
    accepted_eq := h.accepted_eq }

/-- **Step lemma.**  Nothing that the attacker does shows in what is delivered. -/
theorem inv_step {A : Aead} (hA : A.Ideal) {s t : Tamper} {e : Event}
    (h : ∃ opened, Inv s opened) (hstep : step A s e = some t) : ∃ opened, Inv t opened := by
  obtain ⟨opened, h⟩ := h
  cases e with
  | write buf script => exact ⟨opened, h.write buf script hstep⟩
  | flush script =>
      obtain ⟨pushed, hr⟩ := NoiseStream.pollFlush_spec h.sender s.outgoing script
      simp only [step, Option.some.injEq] at hstep
      rw [← hstep]
      exact ⟨opened, h.flush hr⟩
  | shutdown script =>
      obtain ⟨pushed, hr⟩ := NoiseStream.pollShutdown_spec h.sender s.outgoing script
      simp only [step, Option.some.injEq] at hstep
      rw [← hstep]
      exact ⟨opened, h.flush hr⟩
  | feed bytes | setEnded ended =>
      simp only [step, Option.some.injEq] at hstep
      rw [← hstep]
      exact ⟨opened, h.sender, h.receiver, h.sending_eq, h.receiving_eq, h.opened_prefix,
        h.delivered_eq, h.accepted_eq⟩
  | read room script =>
      obtain ⟨more, hmore⟩ := h.read hA room script hstep
      exact ⟨opened ++ more, hmore⟩

/-- What the receiver can rely on. -/
structure Safe (A : Aead) (s : Tamper) : Prop where
  /-- Only bytes that the sender encrypted, in their order. -/
  delivered_prefix : s.delivered <+: s.log.flatMap Prod.fst
  /-- They are what the sender accepted, unless its own transport failed behind the encryption. -/
  accepted_prefix : s.refused = false → s.delivered <+: s.accepted
  /-- The next read stays inside its buffers. -/
  no_panic : ∀ room script, (s.receiver.pollRead (A.cipher s.log) room s.incoming script).answer ≠
    .panic

/-- **No tampering shows.**  Whatever the attacker feeds to the receiver, also behind an error: what is
delivered is a prefix of what the sender encrypted and accepted, and no length on the wire leads out of
the buffers. -/
theorem tamper_safe {A : Aead} (hA : A.Ideal) {es : List Event} {s : Tamper}
    (hrun : (machine A).run initial es = some s) : Safe A s := by
  obtain ⟨opened, h⟩ := (machine A).run_invariant (fun s => ∃ opened, Inv s opened)
    (fun hi hstep => inv_step hA hi hstep) ⟨[], inv_initial⟩ hrun
  have hdelivered : s.delivered <+: s.log.flatMap Prod.fst := by
    refine List.IsPrefix.trans ?_ (h.opened_prefix.flatMap _)
    rw [← h.delivered_eq]
    exact List.prefix_append _ _
  exact {
    delivered_prefix := hdelivered
    accepted_prefix := by
      intro hrefused
      rw [h.accepted_eq hrefused]
      exact hdelivered
    no_panic := by
      intro room script
      obtain ⟨got, log, bad, hr⟩ :=
        NoiseStream.pollRead_spec (A.cipher s.log) room h.receiver s.incoming script
      exact hr.no_panic }

/-- An ideal cipher for examples. -/
def plainAead : Aead where
  encrypt := Cipher.plain.encrypt
  decrypt := fun log n c =>
    match log[n]? with
    | some x => if x.2 = c then some x.1 else none
    | none => none
  residue := Cipher.plain.residue

theorem plainAead_ideal : plainAead.Ideal := by
  intro log n p c h
  simp only [plainAead] at h
  cases hget : log[n]? with
  | none => simp [hget] at h
  | some x =>
      simp only [hget] at h
      by_cases hc : x.2 = c
      · rw [if_pos hc] at h
        exact congrArg some (Prod.ext (Option.some.inj h) hc)
      · rw [if_neg hc] at h
        cases h

/-- A frame of no bytes, a forged one, a cut one, the sender's own and the same again. -/
def tamperEvents : List Event :=
  [.write [1, 2, 3] [.upTo 99], .feed [0, 0, 0, 1], .read 8 [.upTo 99], .read 8 [.upTo 99],
    .feed [9, 0], .setEnded true, .read 8 [.upTo 99, .upTo 99, .upTo 99], .setEnded false,
    .feed (19 :: [1, 2, 3] ++ List.replicate 16 0), .read 2 [.upTo 99, .upTo 99], .read 2 [],
    .feed (0 :: 19 :: [1, 2, 3] ++ List.replicate 16 0), .read 2 [.upTo 99, .fail]]

theorem tamper_safe_forged : ∃ s, (machine plainAead).run initial tamperEvents = some s ∧
    Safe plainAead s := by
  have hsome : ((machine plainAead).run initial tamperEvents).isSome = true := by
    decide +kernel
  obtain ⟨s, hs⟩ := Option.isSome_iff_exists.1 hsome
  exact ⟨s, hs, tamper_safe plainAead_ideal hs⟩

end Tamper

end Noise
end Erbridge
