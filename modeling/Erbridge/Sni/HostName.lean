import Erbridge.Core.Bytes
import Mathlib.Data.List.TakeWhile

/-!
# Which names are usable

`host_name` of the SNI router, with the parser of `IpAddr` that it rejects IP literals with.

* `readNumber`, `readIpv4Addr`, `readIpv6Addr`, `isIpAddr` — `str::parse::<IpAddr>`, as far as whether it
  succeeds: each reads from the front and returns what is behind.
* `IsIpv4` — four decimal numbers up to 255 between dots.
* `isIpAddr_iff` — without a colon, the IP literals are those.
* `hostName_iff` — the names that `host_name` lets through.
-/

namespace Erbridge
namespace Sni

open Erbridge.Core

def dot : UInt8 := 0x2e

def colon : UInt8 := 0x3a

/-- `(b as char).to_digit(radix)`, for a radix of 10 or 16. -/
def toDigit (radix : Nat) (b : UInt8) : Option Nat :=
  let n := b.toNat
  if 0x30 ≤ n ∧ n ≤ 0x39 then some (n - 0x30)
  else if radix = 16 ∧ 0x41 ≤ n ∧ n ≤ 0x46 then some (n - 0x41 + 10)
  else if radix = 16 ∧ 0x61 ≤ n ∧ n ≤ 0x66 then some (n - 0x61 + 10)
  else none

def isDigit (radix : Nat) (b : UInt8) : Bool := (toDigit radix b).isSome

def value (radix : Nat) (digits : Bytes) : Nat :=
  digits.foldl (fun n b => n * radix + (toDigit radix b).getD 0) 0

/-- `read_number`: at most `maxDigits` digits, without a zero in front of others if that is not allowed,
and not more than `bound`. -/
def readNumber (radix maxDigits bound : Nat) (allowZeroPrefix : Bool) (s : Bytes) : Option Bytes :=
  let digits := s.takeWhile (isDigit radix)
  if digits.length = 0 ∨ maxDigits < digits.length then none
  else if allowZeroPrefix = false ∧ s.head? = some 0x30 ∧ 1 < digits.length then none
  else if bound < value radix digits then none
  else some (s.dropWhile (isDigit radix))

/-- `read_separator`: from the second group on, the separator comes first. -/
def readSeparator (sep : UInt8) (i : Nat) (inner : Bytes → Option Bytes) (s : Bytes) : Option Bytes :=
  if i = 0 then inner s
  else
    match s with
    | b :: rest => if b = sep then inner rest else none
    | [] => none

def readOctet (i : Nat) (s : Bytes) : Option Bytes :=
  readSeparator dot i (readNumber 10 3 255 false) s

def readIpv4Addr (s : Bytes) : Option Bytes :=
  (((readOctet 0 s).bind (readOctet 1)).bind (readOctet 2)).bind (readOctet 3)

/-- `read_groups`, with the number of groups still to read: how many were read, whether an IPv4 address
was the last one, and what is behind. -/
def readGroups : Nat → Nat → Bytes → Nat × Bool × Bytes
  | 0, i, s => (i, false, s)
  | left + 1, i, s =>
      -- an IPv4 address takes the place of two groups
      match if 0 < left then readSeparator colon i readIpv4Addr s else none with
      | some rest => (i + 2, true, rest)
      | none =>
          match readSeparator colon i (readNumber 16 4 65535 true) s with
          | some rest => readGroups left (i + 1) rest
          | none => (i, false, s)

def readIpv6Addr (s : Bytes) : Option Bytes :=
  let (headSize, headIpv4, rest) := readGroups 8 0 s
  if headSize = 8 then some rest
  else if headIpv4 then none
  else
    match rest with
    | a :: b :: rest =>
        -- `::` stands for at least one group of zeros
        if a = colon ∧ b = colon then
          some (readGroups (8 - (headSize + 1)) 0 rest).2.2
        else none
    | _ => none

/-- `read_ip_addr`. -/
def readIpAddr (s : Bytes) : Option Bytes :=
  match readIpv4Addr s with
  | some rest => some rest
  | none => readIpv6Addr s

/-- `s.parse::<IpAddr>().is_ok()`: nothing may be behind. -/
def isIpAddr (s : Bytes) : Bool := readIpAddr s = some []

/-- `b.is_ascii_alphanumeric() || matches!(b, b'-' | b'.' | b'_')`. -/
def isHostByte (b : UInt8) : Bool :=
  let n := b.toNat
  (0x30 ≤ n ∧ n ≤ 0x39) ∨ (0x41 ≤ n ∧ n ≤ 0x5a) ∨ (0x61 ≤ n ∧ n ≤ 0x7a) ∨
    n = 0x2d ∨ n = 0x2e ∨ n = 0x5f

/-- A usable name is a DNS-style ASCII host; IP literals are not valid SNI. -/
def hostName (raw : Bytes) : Option String :=
  match String.fromUTF8? raw.toByteArray with
  | none => none
  | some name =>
      let bytes := name.toUTF8.data.toList
      if (bytes ≠ [] ∧ bytes.all isHostByte = true) ∧ isIpAddr bytes = false then some name else none

/-! ### IP literals without a colon -/

/-- A decimal number up to 255, without a zero in front. -/
structure IsOctet (digits : Bytes) : Prop where
  pos : 0 < digits.length
  length_le : digits.length ≤ 3
  digit : ∀ b ∈ digits, isDigit 10 b = true
  no_zero : digits.head? = some 0x30 → digits.length = 1
  value_le : value 10 digits ≤ 255

/-- Four such numbers between dots. -/
def IsIpv4 (s : Bytes) : Prop :=
  ∃ a b c d, IsOctet a ∧ IsOctet b ∧ IsOctet c ∧ IsOctet d ∧
    s = a ++ dot :: (b ++ dot :: (c ++ dot :: d))

/-- What starts like this has no more digits. -/
def NoDigit (s : Bytes) : Prop := ∀ b, s.head? = some b → isDigit 10 b = false

theorem noDigit_nil : NoDigit [] := fun b h => by cases h

theorem noDigit_dot (s : Bytes) : NoDigit (dot :: s) := by
  rintro b ⟨⟩
  decide

/-- The digits in front are what `read_number` takes. -/
theorem takeWhile_digits {digits rest : Bytes} (hdigits : ∀ b ∈ digits, isDigit 10 b = true)
    (hrest : NoDigit rest) : (digits ++ rest).takeWhile (isDigit 10) = digits := by
  have hstop : rest.takeWhile (isDigit 10) = [] := by
    cases rest with
    | nil => rfl
    | cons b rest => rw [List.takeWhile_cons_of_neg (by simp [hrest b rfl])]
  rw [List.takeWhile_append_of_pos hdigits, hstop, List.append_nil]

theorem dropWhile_digits {digits rest : Bytes} (hdigits : ∀ b ∈ digits, isDigit 10 b = true)
    (hrest : NoDigit rest) : (digits ++ rest).dropWhile (isDigit 10) = rest := by
  have hsplit := List.takeWhile_append_dropWhile (p := isDigit 10) (l := digits ++ rest)
  rw [takeWhile_digits hdigits hrest] at hsplit
  exact List.append_cancel_left hsplit

theorem readNumber_eq_some_iff {s rest : Bytes} :
    readNumber 10 3 255 false s = some rest ↔
      ∃ digits, IsOctet digits ∧ NoDigit rest ∧ s = digits ++ rest := by
  constructor
  · intro h
    have hsplit := List.takeWhile_append_dropWhile (p := isDigit 10) (l := s)
    unfold readNumber at h
    dsimp only at h
    split at h
    · cases h
    rename_i hlength
    split at h
    · cases h
    rename_i hzero
    split at h
    · cases h
    rename_i hvalue
    obtain rfl := Option.some.inj h
    have hpos : 0 < (s.takeWhile (isDigit 10)).length := by omega
    refine ⟨s.takeWhile (isDigit 10), ⟨hpos, by omega, fun b hb => List.mem_takeWhile_imp hb,
      fun hhead => ?_, by omega⟩, fun b hb => ?_, hsplit.symm⟩
    -- the first digit is the first byte, at which `read_number` looks for the zero
    · have hfront : s.head? = some 0x30 := by
        rw [← hsplit, List.head?_append, hhead, Option.some_or]
      by_contra hne
      exact hzero ⟨rfl, hfront, by omega⟩
    · have hnot := List.head?_dropWhile_not (isDigit 10) s
      rw [hb] at hnot
      simpa using hnot
  · rintro ⟨digits, hoctet, hrest, rfl⟩
    have hpos := hoctet.pos
    have hle := hoctet.length_le
    have hvalue := hoctet.value_le
    unfold readNumber
    dsimp only
    rw [takeWhile_digits hoctet.digit hrest, dropWhile_digits hoctet.digit hrest,
      if_neg (by omega), if_neg ?_, if_neg (by omega)]
    rintro ⟨-, hhead, hlong⟩
    rw [List.head?_append_of_ne_nil _ (List.ne_nil_of_length_pos hpos)] at hhead
    have hone := hoctet.no_zero hhead
    omega

theorem readOctet_succ {i : Nat} {s rest : Bytes} :
    readOctet (i + 1) s = some rest ↔
      ∃ t, s = dot :: t ∧ readNumber 10 3 255 false t = some rest := by
  cases s with
  | nil => exact ⟨fun h => (by cases h), fun ⟨t, h, _⟩ => (by cases h)⟩
  | cons b s =>
      simp only [readOctet, readSeparator, Nat.add_eq_zero_iff, Nat.one_ne_zero, and_false, if_false]
      split
      · rename_i hb
        subst hb
        exact ⟨fun h => ⟨s, rfl, h⟩, fun ⟨t, ht, h⟩ => (by cases ht; exact h)⟩
      · rename_i hb
        exact ⟨fun h => (by cases h), fun ⟨t, ht, _⟩ => (by cases ht; exact absurd rfl hb)⟩

/-- The parser reads to the end exactly where four numbers stand between dots. -/
theorem readIpv4Addr_eq_nil_iff {s : Bytes} : readIpv4Addr s = some [] ↔ IsIpv4 s := by
  simp only [readIpv4Addr, Option.bind_eq_some_iff, readOctet_succ]
  constructor
  · rintro ⟨s₃, ⟨s₂, ⟨s₁, h₁, t₁, rfl, h₂⟩, t₂, rfl, h₃⟩, t₃, rfl, h₄⟩
    obtain ⟨a, ha, -, rfl⟩ := readNumber_eq_some_iff.1 h₁
    obtain ⟨b, hb, -, rfl⟩ := readNumber_eq_some_iff.1 h₂
    obtain ⟨c, hc, -, rfl⟩ := readNumber_eq_some_iff.1 h₃
    obtain ⟨d, hd, -, rfl⟩ := readNumber_eq_some_iff.1 h₄
    exact ⟨a, b, c, d, ha, hb, hc, hd, by rw [List.append_nil]⟩
  · rintro ⟨a, b, c, d, ha, hb, hc, hd, rfl⟩
    refine ⟨_, ⟨_, ⟨_, readNumber_eq_some_iff.2 ⟨a, ha, noDigit_dot _, rfl⟩, _, rfl,
      readNumber_eq_some_iff.2 ⟨b, hb, noDigit_dot _, rfl⟩⟩, _, rfl,
      readNumber_eq_some_iff.2 ⟨c, hc, noDigit_dot _, rfl⟩⟩, _, rfl,
      readNumber_eq_some_iff.2 ⟨d, hd, noDigit_nil, (List.append_nil d).symm⟩⟩

theorem readSeparator_of_not_mem {i : Nat} {inner : Bytes → Option Bytes} {s : Bytes} (hi : i ≠ 0)
    (hs : colon ∉ s) : readSeparator colon i inner s = none := by
  unfold readSeparator
  rw [if_neg hi]
  cases s with
  | nil => rfl
  | cons b s => exact if_neg fun (hb : b = colon) => hs (hb ▸ List.mem_cons_self)

/-- Behind the first group a colon is needed. -/
theorem readGroups_of_not_mem {left i : Nat} {s : Bytes} (hi : i ≠ 0) (hs : colon ∉ s) :
    readGroups left i s = (i, false, s) := by
  cases left with
  | zero => rfl
  | succ left => simp only [readGroups, readSeparator_of_not_mem hi hs, ite_self]

theorem mem_of_readNumber {radix maxDigits bound : Nat} {allow : Bool} {s rest : Bytes}
    (h : readNumber radix maxDigits bound allow s = some rest) : ∀ b ∈ rest, b ∈ s := by
  unfold readNumber at h
  dsimp only at h
  repeat' split at h
  · cases h
  · cases h
  · cases h
  · obtain rfl := Option.some.inj h
    exact fun b hb => (List.dropWhile_sublist _).subset hb

theorem readIpv6Addr_of_not_mem {s : Bytes} (hs : colon ∉ s) (h4 : readIpv4Addr s = none) :
    readIpv6Addr s = none := by
  have hgroups : ∃ i rest, readGroups 8 0 s = (i, false, rest) ∧ i < 8 ∧ colon ∉ rest := by
    have hfirst : ∀ inner, readSeparator colon 0 inner s = inner s := fun inner => by
      unfold readSeparator
      exact if_pos rfl
    rw [readGroups, hfirst, hfirst, h4, ite_self]
    cases hnum : readNumber 16 4 65535 true s with
    | none => exact ⟨0, s, rfl, by omega, hs⟩
    | some rest =>
        have hrest : colon ∉ rest := fun hmem => hs (mem_of_readNumber hnum _ hmem)
        exact ⟨1, rest, readGroups_of_not_mem (by omega) hrest, by omega, hrest⟩
  obtain ⟨i, rest, hgroups, hi, hrest⟩ := hgroups
  unfold readIpv6Addr
  rw [hgroups]
  dsimp only
  rw [if_neg (by omega), if_neg (by decide)]
  match rest with
  | [] => rfl
  | [_] => rfl
  | a :: b :: rest => exact if_neg fun (hab : a = colon ∧ b = colon) => hrest (hab.1 ▸ List.mem_cons_self)

/-- **Which names without a colon are IP literals.** -/
theorem isIpAddr_iff {s : Bytes} (hs : colon ∉ s) : isIpAddr s = true ↔ IsIpv4 s := by
  rw [isIpAddr, decide_eq_true_eq, ← readIpv4Addr_eq_nil_iff]
  unfold readIpAddr
  cases h4 : readIpv4Addr s with
  | some rest => rfl
  | none => rw [readIpv6Addr_of_not_mem hs h4]

/-! ### Usable names -/

/-- What a usable name is: only letters, digits, `-`, `.` and `_`, at least one of them, and no IP literal
(of which one without a colon is an IPv4 address). -/
structure Usable (raw : Bytes) : Prop where
  ne_nil : raw ≠ []
  host : ∀ b ∈ raw, isHostByte b = true
  not_ip : ¬IsIpv4 raw

theorem not_mem_colon {raw : Bytes} (h : ∀ b ∈ raw, isHostByte b = true) : colon ∉ raw := fun hmem =>
  absurd (h colon hmem) (by decide)

theorem utf8EncodeChar_ofNat {b : UInt8} (hascii : b.toNat < 128) :
    String.utf8EncodeChar (Char.ofNat b.toNat) = [b] := by
  have hval : (Char.ofNat b.toNat).val.toNat = b.toNat := by
    rw [Char.ofNat, dif_pos (Or.inl (by omega))]
    rfl
  rw [String.utf8EncodeChar, hval, if_pos (by omega)]
  simp

/-- Such bytes are text. -/
theorem isValidUTF8_of_host {raw : Bytes} (h : ∀ b ∈ raw, isHostByte b = true) :
    raw.toByteArray.IsValidUTF8 := by
  induction raw with
  | nil => exact ByteArray.isValidUTF8_empty
  | cons b raw ih =>
      have hascii : b.toNat < 128 := by
        have hb := h b List.mem_cons_self
        simp only [isHostByte, decide_eq_true_eq] at hb
        omega
      have hone : [b].toByteArray.IsValidUTF8 :=
        utf8EncodeChar_ofNat hascii ▸ Char.isValidUTF8_toByteArray_utf8EncodeChar
      rw [← List.singleton_append, List.toByteArray_append]
      exact hone.append (ih fun c hc => h c (List.mem_cons_of_mem _ hc))

/-- **Which names `host_name` lets through.** -/
theorem hostName_eq_some_iff {raw : Bytes} {name : String} :
    hostName raw = some name ↔ Usable raw ∧ name.toUTF8 = raw.toByteArray := by
  unfold hostName String.fromUTF8?
  by_cases hvalid : raw.toByteArray.IsValidUTF8
  · have hbytes : (String.fromUTF8 raw.toByteArray hvalid).toUTF8.data.toList = raw :=
      List.toList_data_toByteArray
    rw [dif_pos hvalid]
    simp only [hbytes]
    constructor
    · intro h
      obtain ⟨⟨⟨hne, hall⟩, hip⟩, heq⟩ := Option.ite_none_right_eq_some.1 h
      obtain rfl := Option.some.inj heq
      have hhost : ∀ b ∈ raw, isHostByte b = true := List.all_eq_true.1 hall
      refine ⟨⟨hne, hhost, fun h4 => ?_⟩, rfl⟩
      rw [(isIpAddr_iff (not_mem_colon hhost)).2 h4] at hip
      cases hip
    · rintro ⟨h, hname⟩
      have hip : isIpAddr raw = false := by
        rw [← Bool.not_eq_true, isIpAddr_iff (not_mem_colon h.host)]
        exact h.not_ip
      rw [if_pos ⟨⟨h.ne_nil, List.all_eq_true.2 h.host⟩, hip⟩]
      exact congrArg some (String.toByteArray_inj.1 hname.symm)
  · rw [dif_neg hvalid]
    exact ⟨fun h => (by cases h), fun ⟨h, _⟩ => absurd (isValidUTF8_of_host h.host) hvalid⟩

theorem hostName_eq_none_iff {raw : Bytes} : hostName raw = none ↔ ¬Usable raw := by
  rw [Option.eq_none_iff_forall_ne_some]
  constructor
  · intro h husable
    have hname : (String.fromUTF8 _ (isValidUTF8_of_host husable.host)).toUTF8 = raw.toByteArray := rfl
    exact h _ (hostName_eq_some_iff.2 ⟨husable, hname⟩)
  · intro h name hname
    exact h (hostName_eq_some_iff.1 hname).1

end Sni
end Erbridge
