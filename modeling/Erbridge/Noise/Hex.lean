import Erbridge.Noise.Psk

/-!
# The stored form of a PSK

`Serialize` and `Deserialize` for `Psk` (`noise.rs`): 64 hexadecimal digits, two for each byte, read
pair by pair with `u8::from_str_radix`.

* `Psk.ofHex_toHex` — a stored PSK is read back.
* `bytesOfHex_exists_iff` — the pairs that are read, some of which begin with a sign.
* `Psk.ofHex_digits_iff` — the texts that are read exactly if they are 64 digits, and stored again as
  they were up to case.
-/

namespace Erbridge

namespace Noise

/-- One lowercase hexadecimal digit. -/
def hexDigit (n : Nat) : Char :=
  Char.ofNat (if n < 10 then 0x30 + n else 0x61 + n - 10)

/-- The value of a hexadecimal digit of either case. -/
def hexValue (c : Char) : Option Nat :=
  if '0' ≤ c ∧ c ≤ '9' then some (c.toNat - 0x30)
  else if 'a' ≤ c ∧ c ≤ 'f' then some (c.toNat - 0x61 + 10)
  else if 'A' ≤ c ∧ c ≤ 'F' then some (c.toNat - 0x41 + 10)
  else none

/-- `u8::from_str_radix(_, 16)` on two characters.  It also accepts a sign: `+` and one digit. -/
def byteOfHex (hi lo : Char) : Option UInt8 :=
  if hi = '+' then (hexValue lo).map UInt8.ofNat
  else
    match hexValue hi, hexValue lo with
    | some h, some l => some (UInt8.ofNat (16 * h + l))
    | _, _ => none

/-- The bytes of a text of hexadecimal pairs. -/
def bytesOfHex : List Char → Option (List UInt8)
  | [] => some []
  | [_] => none
  | hi :: lo :: rest =>
      match byteOfHex hi lo, bytesOfHex rest with
      | some b, some bs => some (b :: bs)
      | _, _ => none

/-- `format!("{b:02x}")`. -/
def hexOfByte (b : UInt8) : List Char := [hexDigit (b.toNat / 16), hexDigit (b.toNat % 16)]

/-- `Serialize for Psk`. -/
def Psk.toHex (p : Psk) : String := String.ofList (p.bytes.flatMap hexOfByte)

/-- `Deserialize for Psk`.  For an ASCII text `len()` is the number of its characters. -/
def Psk.ofHex (text : String) : Option Psk :=
  if text.toList.length = 64 ∧ text.toList.all fun c => c.toNat < 128 then
    match bytesOfHex text.toList with
    | some bytes => if h : bytes.length = 32 then some ⟨bytes, h⟩ else none
    | none => none
  else none

theorem hexValue_hexDigit : ∀ n < 16, hexValue (hexDigit n) = some n := by decide

theorem hexDigit_ne_plus : ∀ n < 16, hexDigit n ≠ '+' := by decide

theorem hexDigit_ascii : ∀ n < 16, (hexDigit n).toNat < 128 := by decide

theorem byteOfHex_hexOfByte (b : UInt8) :
    byteOfHex (hexDigit (b.toNat / 16)) (hexDigit (b.toNat % 16)) = some b := by
  have hb : b.toNat < 256 := b.toNat_lt
  have hhi : b.toNat / 16 < 16 := by omega
  have hlo : b.toNat % 16 < 16 := by omega
  unfold byteOfHex
  rw [if_neg (hexDigit_ne_plus _ hhi), hexValue_hexDigit _ hhi, hexValue_hexDigit _ hlo]
  have hsum : 16 * (b.toNat / 16) + b.toNat % 16 = b.toNat := by omega
  simp [hsum]

theorem bytesOfHex_flatMap (bs : List UInt8) : bytesOfHex (bs.flatMap hexOfByte) = some bs := by
  induction bs with
  | nil => rfl
  | cons b bs ih =>
      show bytesOfHex (hexDigit (b.toNat / 16) :: hexDigit (b.toNat % 16)
        :: bs.flatMap hexOfByte) = some (b :: bs)
      simp only [bytesOfHex, byteOfHex_hexOfByte, ih]

theorem length_flatMap_hexOfByte (bs : List UInt8) :
    (bs.flatMap hexOfByte).length = 2 * bs.length := by
  induction bs with
  | nil => rfl
  | cons b bs ih =>
      simp only [List.flatMap_cons, List.length_append, List.length_cons, hexOfByte, ih,
        List.length_nil]
      omega

theorem ascii_flatMap_hexOfByte (bs : List UInt8) :
    ∀ c ∈ bs.flatMap hexOfByte, c.toNat < 128 := by
  intro c hc
  obtain ⟨b, -, hb⟩ := List.mem_flatMap.1 hc
  have hlt : b.toNat < 256 := b.toNat_lt
  simp only [hexOfByte, List.mem_cons, List.not_mem_nil, or_false] at hb
  rcases hb with rfl | rfl
  · exact hexDigit_ascii _ (by omega)
  · exact hexDigit_ascii _ (by omega)

/-- **A stored PSK is read back.** -/
theorem Psk.ofHex_toHex (p : Psk) : Psk.ofHex p.toHex = some p := by
  have hlen : (p.bytes.flatMap hexOfByte).length = 64 := by
    rw [length_flatMap_hexOfByte, p.length_eq]
  have hascii : (p.bytes.flatMap hexOfByte).all (fun c => decide (c.toNat < 128)) = true :=
    List.all_eq_true.2 fun c hc => decide_eq_true (ascii_flatMap_hexOfByte p.bytes c hc)
  unfold Psk.ofHex Psk.toHex
  rw [String.toList_ofList, if_pos ⟨hlen, hascii⟩, bytesOfHex_flatMap]
  simp [p.length_eq]

/-! ## The texts that are read -/

/-- A hexadecimal digit of either case. -/
def IsHexDigit (c : Char) : Prop :=
  ('0' ≤ c ∧ c ≤ '9') ∨ ('a' ≤ c ∧ c ≤ 'f') ∨ ('A' ≤ c ∧ c ≤ 'F')

/-- Pairs of hexadecimal digits, in which a sign may stand for the first digit. -/
def IsPairs : List Char → Prop
  | [] => True
  | [_] => False
  | hi :: lo :: rest => (hi = '+' ∨ IsHexDigit hi) ∧ IsHexDigit lo ∧ IsPairs rest

/-- 64 hexadecimal digits. -/
def IsDigits (text : String) : Prop :=
  text.toList.length = 64 ∧ ∀ c ∈ text.toList, IsHexDigit c

/-- 32 pairs of which one or more begin with a sign. -/
def HasSign (text : String) : Prop :=
  text.toList.length = 64 ∧ IsPairs text.toList ∧ '+' ∈ text.toList

/-- `str::to_ascii_lowercase`. -/
def lowercase (text : String) : String := String.ofList (text.toList.map Char.toLower)

theorem hexValue_exists_iff {c : Char} : (∃ v, hexValue c = some v) ↔ IsHexDigit c := by
  unfold hexValue IsHexDigit
  split
  · simp [*]
  · split
    · simp [*]
    · split <;> simp [*]

theorem IsHexDigit.ascii {c : Char} (h : IsHexDigit c) : c.toNat < 128 := by
  rcases h with h | h | h
  · exact Nat.lt_of_le_of_lt (Char.le_def.1 h.2) (by decide)
  · exact Nat.lt_of_le_of_lt (Char.le_def.1 h.2) (by decide)
  · exact Nat.lt_of_le_of_lt (Char.le_def.1 h.2) (by decide)

theorem not_isHexDigit_plus : ¬IsHexDigit '+' := by
  unfold IsHexDigit
  decide

theorem hexValue_ascii : ∀ n < 128,
    (hexValue (Char.ofNat n)).all
      (fun v => decide (v < 16 ∧ hexDigit v = (Char.ofNat n).toLower)) = true := by
  decide +kernel

/-- A digit is below 16, and stored in lower case. -/
theorem hexDigit_of_hexValue {c : Char} {v : Nat} (h : hexValue c = some v) :
    v < 16 ∧ hexDigit v = c.toLower := by
  have hascii : c.toNat < 128 := (hexValue_exists_iff.1 ⟨v, h⟩).ascii
  have hall := hexValue_ascii c.toNat hascii
  rw [Char.ofNat_toNat, h] at hall
  simpa using hall

/-- What is read as a byte. -/
theorem byteOfHex_exists_iff {hi lo : Char} :
    (∃ b, byteOfHex hi lo = some b) ↔ (hi = '+' ∨ IsHexDigit hi) ∧ IsHexDigit lo := by
  unfold byteOfHex
  split
  · rename_i hplus
    simp [hplus, ← hexValue_exists_iff]
  · rename_i hplus
    rw [← hexValue_exists_iff, ← hexValue_exists_iff]
    cases hexValue hi <;> cases hexValue lo <;> simp [hplus]

/-- A byte that was written with two digits is stored with these digits. -/
theorem hexOfByte_of_byteOfHex {hi lo : Char} {b : UInt8} (h : byteOfHex hi lo = some b)
    (hplus : hi ≠ '+') : hexOfByte b = [hi.toLower, lo.toLower] := by
  unfold byteOfHex at h
  rw [if_neg hplus] at h
  split at h
  · rename_i u v hu hv
    obtain ⟨hult, hu⟩ := hexDigit_of_hexValue hu
    obtain ⟨hvlt, hv⟩ := hexDigit_of_hexValue hv
    have hb : b.toNat = 16 * u + v := by
      rw [← Option.some.inj h, UInt8.toNat_ofNat']
      exact Nat.mod_eq_of_lt (by omega)
    rw [hexOfByte, hb, ← hu, ← hv, show (16 * u + v) / 16 = u by omega,
      show (16 * u + v) % 16 = v by omega]
  · cases h

/-- **The texts of pairs that are read.** -/
theorem bytesOfHex_exists_iff (text : List Char) :
    (∃ bs, bytesOfHex text = some bs) ↔ IsPairs text := by
  fun_induction bytesOfHex text with
  | case1 => simp [IsPairs]
  | case2 c => simp [IsPairs]
  | case3 hi lo rest b bs hbs hb ih =>
      have hpair := byteOfHex_exists_iff.1 ⟨b, hb⟩
      have hrest := ih.1 ⟨bs, hbs⟩
      simp [IsPairs, hpair, hrest]
  | case4 hi lo rest hnone ih =>
      simp only [reduceCtorEq, exists_false, IsPairs, false_iff, ← ih]
      rintro ⟨hhi, hlo, bs, hbs⟩
      obtain ⟨b, hb⟩ := byteOfHex_exists_iff.2 ⟨hhi, hlo⟩
      exact hnone b bs hb hbs

theorem length_of_bytesOfHex {text : List Char} {bs : List UInt8} (h : bytesOfHex text = some bs) :
    text.length = 2 * bs.length := by
  fun_induction bytesOfHex text generalizing bs with
  | case1 =>
      obtain rfl := Option.some.inj h
      rfl
  | case2 c => cases h
  | case3 hi lo rest b tail htail hb ih =>
      obtain rfl := Option.some.inj h
      have hlen := ih htail
      simp only [List.length_cons]
      omega
  | case4 => cases h

/-- Pairs without a sign are stored again as they were, in lower case. -/
theorem flatMap_hexOfByte_of_bytesOfHex {text : List Char} {bs : List UInt8}
    (h : bytesOfHex text = some bs) (hplus : '+' ∉ text) :
    bs.flatMap hexOfByte = text.map Char.toLower := by
  fun_induction bytesOfHex text generalizing bs with
  | case1 =>
      obtain rfl := Option.some.inj h
      rfl
  | case2 c => cases h
  | case3 hi lo rest b tail htail hb ih =>
      obtain rfl := Option.some.inj h
      simp only [List.mem_cons, not_or] at hplus
      have hfirst := hexOfByte_of_byteOfHex hb (Ne.symm hplus.1)
      have hrest := ih htail hplus.2.2
      simp [hfirst, hrest]
  | case4 => cases h

theorem IsPairs.ascii {text : List Char} (h : IsPairs text) : ∀ c ∈ text, c.toNat < 128 := by
  fun_induction IsPairs text with
  | case1 => simp
  | case2 c => exact h.elim
  | case3 hi lo rest ih =>
      obtain ⟨hhi, hlo, hrest⟩ := h
      intro c hc
      rcases List.mem_cons.1 hc with rfl | hc
      · rcases hhi with rfl | hdigit
        · decide
        · exact hdigit.ascii
      · rcases List.mem_cons.1 hc with rfl | hc
        · exact hlo.ascii
        · exact ih hrest c hc

/-- Without a sign, pairs are digits and an even number of them. -/
theorem isPairs_iff_of_no_sign {text : List Char} (hplus : '+' ∉ text) :
    IsPairs text ↔ 2 ∣ text.length ∧ ∀ c ∈ text, IsHexDigit c := by
  fun_induction IsPairs text with
  | case1 => simp
  | case2 c => simp
  | case3 hi lo rest ih =>
      simp only [List.mem_cons, not_or] at hplus
      have hhi : (hi = '+' ∨ IsHexDigit hi) ↔ IsHexDigit hi :=
        or_iff_right (Ne.symm hplus.1)
      rw [hhi, ih hplus.2.2]
      simp only [List.length_cons, List.forall_mem_cons]
      have heven : 2 ∣ rest.length + 1 + 1 ↔ 2 ∣ rest.length := by omega
      rw [heven]
      tauto

/-- **Which texts are read as a PSK.** -/
theorem Psk.ofHex_exists_iff {text : String} :
    (∃ k, Psk.ofHex text = some k) ↔ text.toList.length = 64 ∧ IsPairs text.toList := by
  unfold Psk.ofHex
  constructor
  · rintro ⟨k, hk⟩
    split at hk
    · rename_i hform
      split at hk
      · rename_i bs hbs
        exact ⟨hform.1, (bytesOfHex_exists_iff _).1 ⟨bs, hbs⟩⟩
      · cases hk
    · cases hk
  · rintro ⟨hlen, hpairs⟩
    obtain ⟨bs, hbs⟩ := (bytesOfHex_exists_iff _).2 hpairs
    have hascii : text.toList.all (fun c => decide (c.toNat < 128)) = true :=
      List.all_eq_true.2 fun c hc => decide_eq_true (hpairs.ascii c hc)
    have hbytes : bs.length = 32 := by
      have htwo := length_of_bytesOfHex hbs
      omega
    rw [if_pos ⟨hlen, hascii⟩, hbs]
    exact ⟨⟨bs, hbytes⟩, dif_pos hbytes⟩

theorem Psk.bytesOfHex_of_ofHex {text : String} {k : Psk} (h : Psk.ofHex text = some k) :
    bytesOfHex text.toList = some k.bytes := by
  unfold Psk.ofHex at h
  split at h
  · split at h
    · rename_i bs hbs
      split at h
      · rw [hbs, ← Option.some.inj h]
      · cases h
    · cases h
  · cases h

/-- No stored PSK has a sign in it. -/
theorem plus_notMem_flatMap_hexOfByte (bs : List UInt8) : '+' ∉ bs.flatMap hexOfByte := by
  intro hmem
  obtain ⟨b, -, hb⟩ := List.mem_flatMap.1 hmem
  have hlt : b.toNat < 256 := b.toNat_lt
  simp only [hexOfByte, List.mem_cons, List.not_mem_nil, or_false] at hb
  rcases hb with hb | hb
  · exact hexDigit_ne_plus _ (by omega) hb.symm
  · exact hexDigit_ne_plus _ (by omega) hb.symm

/-- A PSK that was read is stored as the text in lower case if the text has no sign. -/
theorem Psk.toHex_of_ofHex_iff {text : String} {k : Psk} (h : Psk.ofHex text = some k) :
    k.toHex = lowercase text ↔ '+' ∉ text.toList := by
  unfold Psk.toHex lowercase
  constructor
  · intro heq hplus
    have hmem : '+'.toLower ∈ text.toList.map Char.toLower := List.mem_map_of_mem hplus
    rw [← String.ofList_injective heq] at hmem
    exact plus_notMem_flatMap_hexOfByte _ hmem
  · intro hplus
    rw [flatMap_hexOfByte_of_bytesOfHex (Psk.bytesOfHex_of_ofHex h) hplus]

theorem isDigits_iff {text : String} :
    IsDigits text ↔ text.toList.length = 64 ∧ IsPairs text.toList ∧ '+' ∉ text.toList := by
  unfold IsDigits
  constructor
  · rintro ⟨hlen, hdigits⟩
    have hplus : '+' ∉ text.toList := fun hmem => not_isHexDigit_plus (hdigits _ hmem)
    refine ⟨hlen, (isPairs_iff_of_no_sign hplus).2 ⟨?_, hdigits⟩, hplus⟩
    omega
  · rintro ⟨hlen, hpairs, hplus⟩
    exact ⟨hlen, ((isPairs_iff_of_no_sign hplus).1 hpairs).2⟩

/-- **When a PSK is read as its stored form says**: exactly 64 digits are accepted, and they are stored
again in lower case, except for the texts in which a pair begins with a sign. -/
theorem Psk.ofHex_digits_iff (text : String) :
    (((∃ k, Psk.ofHex text = some k) ↔ IsDigits text)
        ∧ (∀ k, Psk.ofHex text = some k → k.toHex = lowercase text)
        ∧ ∀ k, Psk.ofHex k.toHex = some k) ↔
      ¬HasSign text := by
  constructor
  · rintro ⟨haccepted, -, -⟩ ⟨hlen, hpairs, hplus⟩
    have hdigits := haccepted.1 (Psk.ofHex_exists_iff.2 ⟨hlen, hpairs⟩)
    exact (isDigits_iff.1 hdigits).2.2 hplus
  · intro hsign
    refine ⟨?_, fun k hk => ?_, Psk.ofHex_toHex⟩
    · rw [Psk.ofHex_exists_iff, isDigits_iff]
      exact ⟨fun ⟨hlen, hpairs⟩ => ⟨hlen, hpairs, fun hplus => hsign ⟨hlen, hpairs, hplus⟩⟩,
        fun ⟨hlen, hpairs, _⟩ => ⟨hlen, hpairs⟩⟩
    · obtain ⟨hlen, hpairs⟩ := Psk.ofHex_exists_iff.1 ⟨k, hk⟩
      exact (Psk.toHex_of_ofHex_iff hk).2 fun hplus => hsign ⟨hlen, hpairs, hplus⟩

/-- 32 pairs of a sign and a digit, which are read as the key of 32 bytes 1. -/
theorem signed_psk_accepted :
    ¬∀ text, ((∃ k, Psk.ofHex text = some k) ↔ IsDigits text)
        ∧ ∀ k, Psk.ofHex text = some k → k.toHex = lowercase text := by
  intro h
  have hread : Psk.ofHex (String.ofList (List.replicate 32 ['+', '1']).flatten)
      = some (Psk.repeated 1) := by
    decide +kernel
  have hdigits := (h _).1.1 ⟨_, hread⟩
  exact not_isHexDigit_plus (hdigits.2 '+' (by simp))

end Noise

end Erbridge
