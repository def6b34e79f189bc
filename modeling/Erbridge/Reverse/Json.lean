import Erbridge.Core.Reader
import Erbridge.Reverse.Credentials

/-!
# A reader of the credentials

A reader that undoes `Credentials.json`, so that the two stand for `serde_json` where it is given.
`serde_json` reads more than that (white space, other orders of the fields).

* `readString` — the reader of a printed string.
* `reads_jsonString` — it takes what was printed, whatever follows.
* `Credentials.roundTrips_json` — the credentials are read back from their bytes.
-/

namespace Erbridge
namespace Reverse

open Erbridge.Core Reader
open Noise (hexDigit hexValue)

/-! ## Strings -/

/-- The value of the four digits behind `\u`, where it is a character's. -/
def escapedChar (a b c d : Char) : Option Char := do
  let w ← hexValue a
  let x ← hexValue b
  let y ← hexValue c
  let z ← hexValue d
  let n := ((w * 16 + x) * 16 + y) * 16 + z
  if n < 0xD800 then some (Char.ofNat n) else none

/-- The character that a backslash and this one stand for. -/
def shortEscape (c : Char) : Option Char :=
  if c = '"' then some '"'
  else if c = '\\' then some '\\'
  else if c = '/' then some '/'
  else if c = 'b' then some '\x08'
  else if c = 't' then some '\x09'
  else if c = 'n' then some '\x0A'
  else if c = 'f' then some '\x0C'
  else if c = 'r' then some '\x0D'
  else none

/-- What is between the quotes, and what comes after the closing one. -/
def readBody : Reader Char (List Char)
  | '"' :: rest => some ([], rest)
  | '\\' :: 'u' :: a :: b :: c :: d :: rest =>
      (escapedChar a b c d).bind fun x => (readBody rest).map fun p => (x :: p.1, p.2)
  | '\\' :: c :: rest =>
      (shortEscape c).bind fun x => (readBody rest).map fun p => (x :: p.1, p.2)
  | c :: rest =>
      if c.toNat < 0x20 then none else (readBody rest).map fun p => (c :: p.1, p.2)
  | [] => none

def readString : Reader Char String :=
  (expect ['"']).andThen (readBody.check fun chars => some (String.ofList chars))

theorem escapedChar_control : ∀ n < 32,
    escapedChar '0' '0' (hexDigit (n / 16)) (hexDigit (n % 16)) = some (Char.ofNat n) := by
  decide

/-- One character is read back from what is printed for it. -/
theorem readBody_escapeChar (c : Char) (rest : List Char) :
    readBody (escapeChar c ++ rest) = (readBody rest).map fun p => (c :: p.1, p.2) := by
  have hofNat : ∀ n, c.toNat = n → c = Char.ofNat n := by
    rintro n rfl
    exact (Char.ofNat_toNat c).symm
  unfold escapeChar
  split_ifs with hquote hslash hb ht hn hf hr hcontrol
  · rw [hquote]
    rfl
  · rw [hslash]
    rfl
  · rw [hofNat _ hb]
    rfl
  · rw [hofNat _ ht]
    rfl
  · rw [hofNat _ hn]
    rfl
  · rw [hofNat _ hf]
    rfl
  · rw [hofNat _ hr]
    rfl
  · have hread := escapedChar_control c.toNat hcontrol
    rw [Char.ofNat_toNat] at hread
    show (escapedChar '0' '0' (hexDigit (c.toNat / 16)) (hexDigit (c.toNat % 16))).bind _ = _
    rw [hread, Option.bind_some]
    rfl
  · -- No escape begins with this character, so it stands for itself.
    show readBody (c :: rest) = _
    rw [readBody]
    · rw [if_neg hcontrol]
    · exact fun h => hquote h
    · exact fun a b d e f h => absurd h hslash
    · exact fun d e h => absurd h hslash

theorem readBody_escaped (s rest : List Char) :
    readBody (s.flatMap escapeChar ++ '"' :: rest) = some (s, rest) := by
  induction s with
  | nil => rfl
  | cons c s ih =>
      rw [List.flatMap_cons, List.append_assoc, readBody_escapeChar, ih, Option.map_some]

theorem reads_jsonString (s : String) : Reads readString (jsonString s) s := by
  have hbody : Reads (readBody.check fun chars => some (String.ofList chars))
      (s.toList.flatMap escapeChar ++ ['"']) s := by
    have hchars : Reads readBody (s.toList.flatMap escapeChar ++ ['"']) s.toList := by
      intro rest
      rw [List.append_assoc]
      exact readBody_escaped s.toList rest
    exact hchars.check (by rw [String.ofList_toList])
  exact hbody.expect ['"']

/-! ## Credentials -/

namespace Credentials

def readFields : Reader Char Credentials :=
  (expect "\x7b\"name\":".toList).andThen <| readString.bind fun name =>
    (expect ",\"token\":".toList).andThen <| readString.bind fun token =>
      (expect ",\"sni\":".toList).andThen <| readString.bind fun sni =>
        (expect "\x7d".toList).andThen <| ret ⟨name, token, sni⟩

/-- `serde_json::from_slice`, on what is printed like this. -/
def ofJson (bytes : Bytes) : Option Credentials :=
  (ofUtf8 bytes).bind fun text =>
    match readFields text with
    | some (c, []) => some c
    | _ => none

theorem reads_fields (c : Credentials) :
    Reads readFields ("\x7b\"name\":".toList ++ (jsonString c.name ++ (",\"token\":".toList
      ++ (jsonString c.token ++ (",\"sni\":".toList ++ (jsonString c.sni
        ++ ("\x7d".toList ++ []))))))) c :=
  Reads.expect ((reads_jsonString c.name).bind
    (Reads.expect ((reads_jsonString c.token).bind
      (Reads.expect ((reads_jsonString c.sni).bind
        (Reads.expect (reads_ret c) _)) _)) _)) _

theorem roundTrips_json : RoundTrips Credentials.json ofJson := by
  intro c
  have hread := reads_fields c []
  rw [List.append_nil] at hread
  simp only [ofJson, json, ofUtf8_utf8, Option.bind_some, List.append_assoc] at hread ⊢
  rw [List.append_nil] at hread
  rw [hread]

end Credentials

end Reverse
end Erbridge
