import Erbridge.Core.Wire

/-!
# The copy loop

`pump` copies from a reader into a writer until the end of file.  One transition is one poll of either;
what the two are is left to who uses the loop.

* `Pump` — where the loop is.
* `Pump.onRead`, `Pump.onWrite`, `Pump.onShutdown` — what it does with the answer of a poll.
* `Pump.held` — the bytes that it has read and not written.
* `Pump.Copies` — what it has taken from one wire is on another or in hand; each poll keeps that.
-/

namespace Erbridge
namespace Proxy

open Erbridge.Core

/-- `BUF_SIZE`. -/
def bufSize : Nat := 16 * 1024

/-- Where a `pump` is. -/
inductive Pump
  /-- It is about to poll `r.read(&mut buf)`. -/
  | reading
  /-- It waits in `r.read(&mut buf)`, which was answered Pending. -/
  | waiting
  /-- `w.write_all(&buf[..n])`, with what is left of it. -/
  | writing (rest : Bytes) (n : Nat)
  | shuttingDown
  /-- `Ok(())`. -/
  | done
  | failed (e : IoError)

namespace Pump

/-- The loop polls its reader. -/
def isReading : Pump → Bool
  | .reading | .waiting => true
  | _ => false

/-- `r.read(&mut buf)` was answered.  A panic would be the end of the task; neither a socket nor a Noise
stream (`Noise.NoiseStream.pollRead_spec`) answers with one. -/
def onRead : Poll Bytes → Pump
  | .ready (.ok []) => .shuttingDown
  | .ready (.ok (b :: bytes)) => .writing (b :: bytes) (b :: bytes).length
  | .ready (.error e) => .failed e
  | .pending | .panic => .waiting

/-- The writer's `poll_write(rest)` was answered; with the increment of the counter. -/
def onWrite (rest : Bytes) (n : Nat) (p : Poll Nat) : Pump × Nat :=
  match writeAll rest p with
  | .failed e => (.failed e, 0)
  | .rest [] => (.reading, n)
  | .rest more => (.writing more n, 0)

/-- The writer's `poll_shutdown` was answered; its error is ignored. -/
def onShutdown : Poll Unit → Pump
  | .ready _ => .done
  | .pending | .panic => .shuttingDown

/-- What was read and is still to be written. -/
def held : Pump → Bytes
  | .writing rest _ => rest
  | _ => []

/-- A write in progress has something left. -/
def Ok : Pump → Prop
  | .writing rest _ => rest ≠ []
  | _ => True

/-- A read that was answered with bytes leaves them to be written. -/
theorem onRead_bytes {bytes : Bytes} (h : bytes ≠ []) :
    onRead (.ready (.ok bytes)) = .writing bytes bytes.length := by
  obtain ⟨b, rest, rfl⟩ := List.exists_cons_of_ne_nil h
  rfl

theorem onRead_ok (p : Poll Bytes) : (onRead p).Ok := by
  match p with
  | .ready (.ok []) | .ready (.error e) | .pending | .panic => exact trivial
  | .ready (.ok (b :: bytes)) => exact List.cons_ne_nil _ _

theorem onWrite_ok (rest : Bytes) (n : Nat) (p : Poll Nat) : (onWrite rest n p).1.Ok := by
  unfold onWrite
  match writeAll rest p with
  | .failed e | .rest [] => exact trivial
  | .rest (b :: more) => exact List.cons_ne_nil _ _

/-- The loop waits for its source only when a read was put off. -/
theorem onWrite_ne_waiting (rest : Bytes) (n : Nat) (p : Poll Nat) :
    (onWrite rest n p).1 ≠ .waiting := by
  unfold onWrite
  match writeAll rest p with
  | .failed e | .rest [] | .rest (b :: more) => simp

theorem onShutdown_ne_waiting (p : Poll Unit) : onShutdown p ≠ .waiting := by
  match p with
  | .ready _ | .pending | .panic => simp [onShutdown]

/-- What the loop has taken from `src` is on `dst` or in hand, unless the loop failed; `lead` and `head`
are what stands in front of the copied bytes, on `src` and on `dst`. -/
structure Copies (lead head : Bytes) (src dst : Wire) (p : Pump) : Prop where
  ok : p.Ok
  moved : lead ++ dst.carried <+: head ++ src.read
  all_moved : (∀ e, p ≠ .failed e) → lead ++ (dst.carried ++ p.held) = head ++ src.read
  /-- The loop goes on to its shutdown only at the end of file. -/
  drained : p = .shuttingDown ∨ p = .done → src.unread = [] ∧ src.ended = true

/-- A loop that is started with `rest` to be written. -/
theorem Copies.start {lead head : Bytes} {src dst : Wire} {p : Pump} (hp : p.Ok)
    (hmoved : lead ++ (dst.carried ++ p.held) = head ++ src.read)
    (hstart : p ≠ .shuttingDown ∧ p ≠ .done) : Copies lead head src dst p where
  ok := hp
  moved := by
    rw [← hmoved, ← List.append_assoc]
    exact List.prefix_append _ _
  all_moved := fun _ => hmoved
  drained := by
    intro h
    rcases h with h | h
    · exact absurd h hstart.1
    · exact absurd h hstart.2

theorem held_of_isReading {p : Pump} (h : p.isReading = true) :
    p.held = [] ∧ ∀ e, p ≠ .failed e := by
  cases p with
  | reading | waiting => exact ⟨rfl, fun e he => by cases he⟩
  | writing | shuttingDown | done | failed => simp [isReading] at h

/-- One poll of the source. -/
theorem Copies.read {lead head : Bytes} {src dst : Wire} {p : Pump}
    (h : Copies lead head src dst p) (hreading : p.isReading = true) (a : ReadAnswer) :
    Copies lead head (src.pollRead bufSize a).2 dst (onRead (src.pollRead bufSize a).1) := by
  obtain ⟨hheld, hgoing⟩ := held_of_isReading hreading
  have hall := h.all_moved hgoing
  have hroom : 0 < bufSize := by decide
  rcases src.pollRead_cases a hroom with
    heq | ⟨-, heq⟩ | ⟨hunread, hended, heq⟩ | ⟨got, rest, hgot, hunread, -, heq⟩
  · rw [heq]
    refine .start trivial ?_ ⟨by simp [onRead], by simp [onRead]⟩
    rw [← hall, hheld]
    rfl
  · rw [heq]
    exact {
      ok := trivial
      moved := h.moved
      all_moved := fun hne => absurd rfl (hne .transport)
      drained := fun hd => by simp [onRead] at hd }
  · rw [heq]
    exact {
      ok := trivial
      moved := h.moved
      all_moved := fun _ => by
        rw [← hall, hheld]
        rfl
      drained := fun _ => ⟨hunread, hended⟩ }
  · rw [heq, onRead_bytes hgot]
    refine .start hgot ?_ ⟨by simp, by simp⟩
    rw [(Wire.read_advance hunread).1, ← List.append_assoc head, ← hall, hheld]
    simp [held]

/-- One poll of the destination for a write. -/
theorem Copies.write {lead head : Bytes} {src dst : Wire} {rest : Bytes} {n : Nat}
    (h : Copies lead head src dst (.writing rest n)) (a : WriteAnswer) :
    Copies lead head src (dst.pollWrite rest a).2 (onWrite rest n (dst.pollWrite rest a).1).1 := by
  have hall := h.all_moved (by simp)
  have hok := onWrite_ok rest n (dst.pollWrite rest a).1
  rcases dst.writeAll_cases rest a with
    ⟨e, heq, hwire, -⟩ | ⟨pushed, more, hsplit, heq, hwire, -⟩
  · rw [hwire]
    simp only [onWrite, heq]
    exact {
      ok := trivial
      moved := h.moved
      all_moved := fun hne => absurd rfl (hne e)
      drained := fun hd => by simp at hd }
  · rw [hwire]
    have hmoved : lead ++ ((dst.push pushed).carried ++ more) = head ++ src.read := by
      rw [← hall]
      simp [held, hsplit]
    cases more with
    | nil =>
        simp only [onWrite, heq] at hok ⊢
        exact .start hok hmoved ⟨by simp, by simp⟩
    | cons b more =>
        simp only [onWrite, heq] at hok ⊢
        exact .start hok hmoved ⟨by simp, by simp⟩

theorem onShutdown_cases (p : Poll Unit) : onShutdown p = .done ∨ onShutdown p = .shuttingDown := by
  match p with
  | .ready _ => exact Or.inl rfl
  | .pending | .panic => exact Or.inr rfl

/-- One poll of the destination for the shutdown. -/
theorem Copies.shutdown {lead head : Bytes} {src dst dst' : Wire}
    (h : Copies lead head src dst .shuttingDown) (hcarried : dst'.carried = dst.carried)
    (p : Poll Unit) : Copies lead head src dst' (onShutdown p) := by
  have hall := h.all_moved (by simp)
  have hdrained := h.drained (Or.inl rfl)
  rcases onShutdown_cases p with heq | heq
  · rw [heq]
    exact {
      ok := trivial
      moved := by rw [hcarried]; exact h.moved
      all_moved := fun _ => by rw [hcarried]; exact hall
      drained := fun _ => hdrained }
  · rw [heq]
    exact {
      ok := trivial
      moved := by rw [hcarried]; exact h.moved
      all_moved := fun _ => by rw [hcarried]; exact hall
      drained := fun _ => hdrained }

/-- What others do to the two wires does not disturb the loop: more comes into the source, unless it
has ended, and something is read from the destination. -/
theorem Copies.of_eq {lead head : Bytes} {src src' dst dst' : Wire} {p : Pump}
    (h : Copies lead head src dst p) (hread : src'.read = src.read)
    (hdrained : src.unread = [] → src.ended = true → src'.unread = [] ∧ src'.ended = true)
    (hcarried : dst'.carried = dst.carried) : Copies lead head src' dst' p where
  ok := h.ok
  moved := by
    rw [hread, hcarried]
    exact h.moved
  all_moved := by
    rw [hread, hcarried]
    exact h.all_moved
  drained := fun hp => hdrained (h.drained hp).1 (h.drained hp).2

/-- A loop that is done has moved all there was. -/
theorem Copies.of_done {lead head : Bytes} {src dst : Wire} (h : Copies lead head src dst .done) :
    lead ++ dst.carried = head ++ src.carried ∧ src.ended = true := by
  obtain ⟨hunread, hended⟩ := h.drained (Or.inr rfl)
  have hall := h.all_moved (by simp)
  have hread : src.read = src.carried := by
    rw [← src.read_append_unread, hunread, List.append_nil]
  have hheld : (Pump.done).held = [] := rfl
  rw [hread, hheld, List.append_nil] at hall
  exact ⟨hall, hended⟩

end Pump

end Proxy
end Erbridge
