import Mathlib.Algebra.GroupWithZero.Nat
import Erbridge.Core.Bytes

/-!
# Reading with checked bounds

A function over a buffer either returns, reports an error, or reads out of bounds, where the language
panics.  `Checked` keeps the last two apart, so that the absence of panics can be stated and proved.

* `Checked.bind_eq_ok_iff` takes a successful computation apart, step by step.
* `Checked.Safe` — it does not read out of bounds; `Safe.bind`, `Safe.ite` go along a computation, and
  `Safe.error_iff` says that a safe one that does not return reports an error.
* `vec8`, `be24` — a vector behind its length in one byte, and `n` as three big-endian bytes.
-/

namespace Erbridge
namespace Core

universe u v

/-- Why a function did not return. -/
inductive Fault (ε : Type u)
  | outOfBounds
  | error (e : ε)
deriving DecidableEq

abbrev Checked (ε : Type u) (α : Type v) := Except (Fault ε) α

namespace Checked

variable {ε : Type u} {α β : Type v}

/-- `bail!`. -/
def bail (e : ε) : Checked ε α := .error (.error e)

/-- `.context(..)`. -/
def context (f : ε → ε) : Checked ε α → Checked ε α
  | .error (.error e) => bail (f e)
  | x => x

/-- `b[i]`. -/
def index (b : Bytes) (i : Nat) : Checked ε UInt8 :=
  match b[i]? with
  | some x => .ok x
  | none => .error .outOfBounds

/-- `&b[start..stop]`. -/
def range (b : Bytes) (start stop : Nat) : Checked ε Bytes :=
  match slice b start stop with
  | some part => .ok part
  | none => .error .outOfBounds

/-- `b.split_at(n)`. -/
def splitAt (b : Bytes) (n : Nat) : Checked ε (Bytes × Bytes) :=
  if n ≤ b.length then .ok (b.take n, b.drop n) else .error .outOfBounds

theorem bind_eq_ok_iff {x : Checked ε α} {f : α → Checked ε β} {b : β} :
    (x >>= f) = .ok b ↔ ∃ a, x = .ok a ∧ f a = .ok b := by
  cases x with
  | error e => exact ⟨fun h => (by cases h), fun ⟨a, h, _⟩ => (by cases h)⟩
  | ok a => exact ⟨fun h => ⟨a, rfl, h⟩, fun ⟨a', h, hb⟩ => by cases h; exact hb⟩

theorem pure_eq_ok_iff {a b : α} : (pure a : Checked ε α) = .ok b ↔ a = b :=
  ⟨fun h => by cases h; rfl, fun h => h ▸ rfl⟩

@[simp] theorem bail_ne_ok {e : ε} {a : α} : (bail e : Checked ε α) ≠ .ok a := fun h => by cases h

theorem context_eq_ok_iff {f : ε → ε} {x : Checked ε α} {a : α} : x.context f = .ok a ↔ x = .ok a := by
  match x with
  | .ok _ => rfl
  | .error (.error _) => exact ⟨fun h => (by cases h), fun h => (by cases h)⟩
  | .error .outOfBounds => rfl

theorem length_of_range {b part : Bytes} {start stop : Nat}
    (h : (range b start stop : Checked ε Bytes) = .ok part) : part.length = stop - start := by
  unfold range slice at h
  split at h
  · rename_i hslice
    split at hslice
    · rename_i hle
      cases h
      cases hslice
      rw [List.length_drop, List.length_take_of_le hle.2]
    · cases hslice
  · cases h

/-- It does not read out of bounds. -/
def Safe (x : Checked ε α) : Prop := x ≠ .error .outOfBounds

theorem Safe.ok (a : α) : Safe (.ok a : Checked ε α) := fun h => by cases h

theorem Safe.bail (e : ε) : Safe (Checked.bail e : Checked ε α) := fun h => by cases h

theorem Safe.bind {x : Checked ε α} {f : α → Checked ε β} (hx : Safe x)
    (hf : ∀ a, x = .ok a → Safe (f a)) : Safe (x >>= f) := by
  cases x with
  | error e => exact fun h => hx (by cases h; rfl)
  | ok a => exact hf a rfl

theorem Safe.ite {p : Prop} [Decidable p] {x y : Checked ε α} (hx : p → Safe x) (hy : ¬p → Safe y) :
    Safe (if p then x else y) := by
  split
  · exact hx ‹_›
  · exact hy ‹_›

theorem Safe.context {x : Checked ε α} (hx : Safe x) (f : ε → ε) : Safe (x.context f) := by
  match x with
  | .ok a => exact Safe.ok a
  | .error (.error e) => exact Safe.bail (f e)
  | .error .outOfBounds => exact absurd rfl hx

theorem Safe.index {b : Bytes} {i : Nat} (h : i < b.length) : Safe (Checked.index b i : Checked ε _) := by
  rw [Checked.index, List.getElem?_eq_getElem h]
  exact Safe.ok _

theorem Safe.range {b : Bytes} {start stop : Nat} (hle : start ≤ stop) (hlen : stop ≤ b.length) :
    Safe (Checked.range b start stop : Checked ε _) := by
  rw [Checked.range, slice_eq_some hle hlen]
  exact Safe.ok _

theorem Safe.splitAt {b : Bytes} {n : Nat} (h : n ≤ b.length) :
    Safe (Checked.splitAt b n : Checked ε _) := by
  rw [Checked.splitAt, if_pos h]
  exact Safe.ok _

/-- What neither returns nor reads out of bounds reports an error. -/
theorem Safe.error_iff {x : Checked ε α} (hx : Safe x) :
    (∃ e, x = Checked.bail e) ↔ ¬∃ a, x = .ok a := by
  match x with
  | .ok a => exact ⟨fun ⟨e, h⟩ => (by cases h), fun h => absurd ⟨a, rfl⟩ h⟩
  | .error (.error e) => exact ⟨fun _ ⟨a, h⟩ => (by cases h), fun _ => ⟨e, rfl⟩⟩
  | .error .outOfBounds => exact absurd rfl hx

end Checked

/-! ### Vectors on the wire -/

/-- A vector behind its length in one byte. -/
def vec8 (body : Bytes) : Bytes := UInt8.ofNat body.length :: body

/-- `n` as three big-endian bytes. -/
def be24 (n : Nat) : Bytes := [UInt8.ofNat (n / 65536), UInt8.ofNat (n / 256), UInt8.ofNat n]

/-- The number that three big-endian bytes are. -/
def u24 (b : Bytes) : Nat :=
  65536 * (b.getD 0 0).toNat + 256 * (b.getD 1 0).toNat + (b.getD 2 0).toNat

@[simp] theorem length_be24 (n : Nat) : (be24 n).length = 3 := rfl

theorem u24_be24 {n : Nat} (h : n < 2 ^ 24) : u24 (be24 n) = n := by
  simp only [u24, be24, List.getD_cons_zero, List.getD_cons_succ, UInt8.toNat_ofNat']
  omega

theorem u24_lt (b : Bytes) : u24 b < 2 ^ 24 := by
  have h0 : (b.getD 0 0).toNat < 256 := UInt8.toNat_lt _
  have h1 : (b.getD 1 0).toNat < 256 := UInt8.toNat_lt _
  have h2 : (b.getD 2 0).toNat < 256 := UInt8.toNat_lt _
  unfold u24
  omega

theorem be24_u24 {b : Bytes} (h : b.length = 3) : be24 (u24 b) = b := by
  match b, h with
  | [x, y, z], _ =>
      have hx : x.toNat < 256 := x.toNat_lt
      have hy : y.toNat < 256 := y.toNat_lt
      have hz : z.toNat < 256 := z.toNat_lt
      have hhigh : UInt8.ofNat (u24 [x, y, z] / 65536) = x := by
        apply UInt8.toNat_inj.1
        simp only [u24, List.getD_cons_zero, List.getD_cons_succ, UInt8.toNat_ofNat']
        omega
      have hmid : UInt8.ofNat (u24 [x, y, z] / 256) = y := by
        apply UInt8.toNat_inj.1
        simp only [u24, List.getD_cons_zero, List.getD_cons_succ, UInt8.toNat_ofNat']
        omega
      have hlow : UInt8.ofNat (u24 [x, y, z]) = z := by
        apply UInt8.toNat_inj.1
        simp only [u24, List.getD_cons_zero, List.getD_cons_succ, UInt8.toNat_ofNat']
        omega
      rw [be24, hhigh, hmid, hlow]

end Core
end Erbridge
