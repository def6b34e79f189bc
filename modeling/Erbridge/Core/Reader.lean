import Mathlib.Data.List.Infix

/-!
# Readers of printed texts

A `Reader` takes a value off the front of a list of tokens.  That a reader undoes a printer is said
with whatever may follow the printed text, so that the statements compose: a record is read field by
field.

* `Reads` — the reader takes exactly the printed text, whatever follows.
* `Reads.bind`, `Reads.expect`, `Reads.check` — how the readers of a format are put together.
-/

namespace Erbridge
namespace Core

universe u v w

/-- Takes a value off the front of the tokens, and returns the others. -/
def Reader (τ : Type u) (α : Type v) : Type (max u v) := List τ → Option (α × List τ)

namespace Reader

variable {τ : Type u} {α : Type v} {β : Type w}

def ret (a : α) : Reader τ α := fun s => some (a, s)

def bind (r : Reader τ α) (f : α → Reader τ β) : Reader τ β :=
  fun s => (r s).bind fun p => f p.1 p.2

/-- First the one, then the other. -/
def andThen (r : Reader τ α) (next : Reader τ β) : Reader τ β := r.bind fun _ => next

/-- These tokens and no others. -/
def expect [DecidableEq τ] (text : List τ) : Reader τ Unit :=
  fun s => if text <+: s then some ((), s.drop text.length) else none

/-- Look at what was read. -/
def check (f : α → Option β) (r : Reader τ α) : Reader τ β :=
  r.bind fun a s => (f a).map fun b => (b, s)

/-- The reader takes the text as the value `a`, whatever comes after it. -/
def Reads (r : Reader τ α) (text : List τ) (a : α) : Prop :=
  ∀ rest, r (text ++ rest) = some (a, rest)

theorem reads_ret (a : α) : Reads (τ := τ) (ret a) [] a := fun _ => rfl

theorem Reads.bind {r : Reader τ α} {f : α → Reader τ β} {text text' : List τ} {a : α} {b : β}
    (hr : Reads r text a) (hf : Reads (f a) text' b) : Reads (r.bind f) (text ++ text') b := by
  intro rest
  have hfirst := hr (text' ++ rest)
  rw [← List.append_assoc] at hfirst
  show (r (text ++ text' ++ rest)).bind (fun p => f p.1 p.2) = some (b, rest)
  rw [hfirst, Option.bind_some]
  exact hf rest

theorem reads_expect [DecidableEq τ] (text : List τ) : Reads (expect text) text () := by
  intro rest
  rw [expect, if_pos (List.prefix_append text rest), List.drop_left]

/-- A text that has to be there, then the rest. -/
theorem Reads.expect [DecidableEq τ] {r : Reader τ β} {text : List τ} {b : β} (hr : Reads r text b)
    (front : List τ) : Reads ((Reader.expect front).andThen r) (front ++ text) b :=
  (reads_expect front).bind hr

theorem Reads.check {r : Reader τ α} {f : α → Option β} {text : List τ} {a : α} {b : β}
    (hr : Reads r text a) (hf : f a = some b) : Reads (r.check f) text b := by
  intro rest
  show ((r (text ++ rest)).bind fun p => (f p.1).map fun b => (b, p.2)) = some (b, rest)
  rw [hr rest, Option.bind_some, hf, Option.map_some]

end Reader

end Core
end Erbridge
