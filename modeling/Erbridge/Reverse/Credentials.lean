import Mathlib.Algebra.GroupWithZero.Nat
import Erbridge.Core.Bytes
import Erbridge.Tenancy.TenantFile

/-!
# Credentials

What `run_enrollment` sends to `enroll`: the names and tokens that the server makes up (`tenant.rs`) and
`Credentials` (`enroll.rs`).  The `serde_json` crate, which prints and parses them, is a parameter of what
follows.

* `RoundTrips`, `PrintsCompactly` — what is relied on.
* `escapeChar`, `escapedLength` — the escapes of a JSON string.
* `Credentials.json` — a printer that is as `serde_json::to_vec`.
* `length_credentials` — how long the credentials of a new tenant are.
-/

namespace Erbridge
namespace Reverse

open Erbridge.Core

/-- `str::as_bytes`. -/
def utf8 (s : List Char) : Bytes := s.flatMap String.utf8EncodeChar

/-- `str::len`. -/
def utf8Length (s : List Char) : Nat := (s.map Char.utf8Size).sum

theorem length_utf8 (s : List Char) : (utf8 s).length = utf8Length s := by
  simp [utf8, utf8Length, List.length_flatMap]

@[simp] theorem utf8Length_append (s t : List Char) :
    utf8Length (s ++ t) = utf8Length s + utf8Length t := by
  simp [utf8Length]

/-- `String::from_utf8`. -/
def ofUtf8 (bytes : Bytes) : Option (List Char) := bytes.toByteArray.utf8Decode?.map Array.toList

theorem ofUtf8_utf8 (s : List Char) : ofUtf8 (utf8 s) = some s := by
  have hencode : (utf8 s).toByteArray = s.utf8Encode := rfl
  rw [ofUtf8, hencode, List.utf8Decode?_utf8Encode, Option.map_some]

/-- `random_hex` on the bytes it has drawn. -/
def randomHex (random : List UInt8) : List Char := random.flatMap Noise.hexOfByte

/-- `new_tenant_name`, which draws six bytes. -/
def newTenantName (random : List UInt8) : String := String.ofList ('t' :: '-' :: randomHex random)

/-- `new_token`, which draws 32 bytes. -/
def newToken (random : List UInt8) : String := String.ofList (randomHex random)

/-- What an enrolled client needs to run `connect`. -/
structure Credentials where
  name : String
  token : String
  /-- The host this tenant is reached at. -/
  sni : String
deriving DecidableEq

/-- `serde_json::from_slice` reads what `serde_json::to_vec` has printed. -/
def RoundTrips (toVec : Credentials → Bytes) (fromSlice : Bytes → Option Credentials) : Prop :=
  ∀ c, fromSlice (toVec c) = some c

/-- How a JSON string spells a character. -/
def escapeChar (c : Char) : List Char :=
  if c = '"' then ['\\', '"']
  else if c = '\\' then ['\\', '\\']
  else if c.toNat = 0x08 then ['\\', 'b']
  else if c.toNat = 0x09 then ['\\', 't']
  else if c.toNat = 0x0A then ['\\', 'n']
  else if c.toNat = 0x0C then ['\\', 'f']
  else if c.toNat = 0x0D then ['\\', 'r']
  else if c.toNat < 0x20 then
    ['\\', 'u', '0', '0', Noise.hexDigit (c.toNat / 16), Noise.hexDigit (c.toNat % 16)]
  else [c]

/-- The number of bytes that a text has between its quotes. -/
def escapedLength (s : String) : Nat := utf8Length (s.toList.flatMap escapeChar)

/-- `serde_json::to_vec` escapes only what it has to, and puts nothing between the tokens. -/
def PrintsCompactly (toVec : Credentials → Bytes) : Prop :=
  ∀ c, (toVec c).length = 31 + escapedLength c.name + escapedLength c.token + escapedLength c.sni

/-! ## A printer -/

def jsonString (s : String) : List Char := '"' :: s.toList.flatMap escapeChar ++ ['"']

example : jsonString "a\"\n\x07é" = "\"a\\\"\\n\\u0007é\"".toList := by decide

/-- What `serde_json::to_vec(&credentials)` prints. -/
def Credentials.json (c : Credentials) : Bytes :=
  utf8 ("\x7b\"name\":".toList ++ jsonString c.name ++ ",\"token\":".toList ++ jsonString c.token
    ++ ",\"sni\":".toList ++ jsonString c.sni ++ "\x7d".toList)

theorem utf8Length_jsonString (s : String) : utf8Length (jsonString s) = 2 + escapedLength s := by
  have hquote : utf8Length ['"'] = 1 := by decide
  have hcons : jsonString s = ['"'] ++ s.toList.flatMap escapeChar ++ ['"'] := rfl
  rw [hcons, utf8Length_append, utf8Length_append, hquote, escapedLength]
  omega

theorem Credentials.printsCompactly_json : PrintsCompactly Credentials.json := by
  intro c
  have hname : utf8Length "\x7b\"name\":".toList = 8 := by decide
  have htoken : utf8Length ",\"token\":".toList = 9 := by decide
  have hsni : utf8Length ",\"sni\":".toList = 7 := by decide
  have hend : utf8Length "\x7d".toList = 1 := by decide
  rw [Credentials.json, length_utf8]
  simp only [utf8Length_append, utf8Length_jsonString, hname, htoken, hsni, hend]
  omega

/-! ## The length of what is made up -/

/-- Hexadecimal digits are printed as they are. -/
theorem escapeChar_hexDigit : ∀ n < 16, escapeChar (Noise.hexDigit n) = [Noise.hexDigit n] := by
  decide

theorem utf8Size_hexDigit : ∀ n < 16, (Noise.hexDigit n).utf8Size = 1 := by decide

theorem utf8Length_escape_randomHex (random : List UInt8) :
    utf8Length ((randomHex random).flatMap escapeChar) = 2 * random.length := by
  induction random with
  | nil => rfl
  | cons b random ih =>
      have hb : b.toNat < 256 := b.toNat_lt
      have hhi : b.toNat / 16 < 16 := by omega
      have hlo : b.toNat % 16 < 16 := by omega
      have hbyte : (randomHex (b :: random)).flatMap escapeChar =
          [Noise.hexDigit (b.toNat / 16), Noise.hexDigit (b.toNat % 16)]
            ++ (randomHex random).flatMap escapeChar := by
        simp [randomHex, Noise.hexOfByte, escapeChar_hexDigit _ hhi, escapeChar_hexDigit _ hlo]
      have htwo : utf8Length [Noise.hexDigit (b.toNat / 16), Noise.hexDigit (b.toNat % 16)] = 2 := by
        simp [utf8Length, utf8Size_hexDigit _ hhi, utf8Size_hexDigit _ hlo]
      rw [hbyte, utf8Length_append, htwo, ih, List.length_cons]
      omega

theorem escapedLength_newToken {random : List UInt8} (h : random.length = 32) :
    escapedLength (newToken random) = 64 := by
  rw [escapedLength, newToken, String.toList_ofList, utf8Length_escape_randomHex, h]

theorem escapedLength_newTenantName {random : List UInt8} (h : random.length = 6) :
    escapedLength (newTenantName random) = 14 := by
  have hsplit : ('t' :: '-' :: randomHex random).flatMap escapeChar
      = ['t', '-'] ++ (randomHex random).flatMap escapeChar := rfl
  have htwo : utf8Length ['t', '-'] = 2 := by decide
  rw [escapedLength, newTenantName, String.toList_ofList, hsplit, utf8Length_append, htwo,
    utf8Length_escape_randomHex, h]

/-- How long the credentials for a host are. -/
theorem length_credentials {toVec : Credentials → Bytes} (hprints : PrintsCompactly toVec)
    {name token : List UInt8} (hname : name.length = 6) (htoken : token.length = 32) (sni : String) :
    (toVec ⟨newTenantName name, newToken token, sni⟩).length = 109 + escapedLength sni := by
  rw [hprints, escapedLength_newTenantName hname, escapedLength_newToken htoken]

end Reverse
end Erbridge
