import Erbridge.Core.Checked
import Erbridge.Sni.HostName
import Erbridge.Sni.Record

/-!
# The server name in a ClientHello

`parse_record` and what it calls, against the grammar of a TLS record with a ClientHello in it.  Every
read is one that can be out of bounds, and none is.

* `Reader` — the cursor; `vec8_eq_ok_iff` and `vec16_eq_ok_iff` say what a vector behind its length is.
* `parseRecord`, `parseHandshake`, `parseExtensions`, `parseServerName` — the parser.
* `NameList`, `Extensions`, `ExtensionBlock`, `ClientHello`, `Handshake`, `HelloRecord` — the grammar,
  with the name that it gives.
* `checkHeader_eq_some_iff` — `read_record` looks at the header in the same way.
* `parseRecord_decides` — the parser decides the grammar.
-/

namespace Erbridge
namespace Sni

open Erbridge.Core
open Checked (bail index range bind_eq_ok_iff pure_eq_ok_iff context_eq_ok_iff Safe)

/-- The errors of `parse_record`. -/
inductive HelloError
  /-- `not a TLS handshake record`. -/
  | notHandshake
  /-- `implausible TLS record length {len}`. -/
  | implausibleLength (len : Nat)
  /-- `truncated TLS record header`. -/
  | truncatedHeader
  /-- `truncated TLS record`. -/
  | truncatedRecord
  /-- `first handshake message is not a ClientHello`. -/
  | notClientHello
  /-- `truncated or malformed ClientHello`. -/
  | malformed
  /-- `ClientHello spans several records`, as the context of another error. -/
  | spansSeveralRecords (cause : HelloError)
deriving DecidableEq

abbrev Parse (α : Type) := Checked HelloError α

/-- Bounds-checked cursor; every read errors instead of panicking. -/
structure Reader where
  bytes : Bytes

namespace Reader

def isEmpty (r : Reader) : Bool := r.bytes.isEmpty

def take (r : Reader) (n : Nat) : Parse (Bytes × Reader) :=
  if r.bytes.length < n then bail .malformed
  else do
    let (head, tail) ← Checked.splitAt r.bytes n
    return (head, ⟨tail⟩)

def u8 (r : Reader) : Parse (UInt8 × Reader) := do
  let (b, r) ← r.take 1
  return (← index b 0, r)

def u16 (r : Reader) : Parse (Nat × Reader) := do
  let (b, r) ← r.take 2
  return (Core.u16 [← index b 0, ← index b 1], r)

def u24 (r : Reader) : Parse (Nat × Reader) := do
  let (b, r) ← r.take 3
  return (Core.u24 [← index b 0, ← index b 1, ← index b 2], r)

/-- `let n = r.u8()? as usize; r.take(n)?`. -/
def vec8 (r : Reader) : Parse (Bytes × Reader) := do
  let (n, r) ← r.u8
  r.take n.toNat

/-- `let n = r.u16()? as usize; r.take(n)?`. -/
def vec16 (r : Reader) : Parse (Bytes × Reader) := do
  let (n, r) ← r.u16
  r.take n

theorem take_eq (r : Reader) (n : Nat) :
    r.take n = if r.bytes.length < n then bail .malformed
      else .ok (r.bytes.take n, ⟨r.bytes.drop n⟩) := by
  unfold take Checked.splitAt
  by_cases h : r.bytes.length < n
  · rw [if_pos h, if_pos h]
  · rw [if_neg h, if_neg h, if_pos (by omega)]
    rfl

theorem take_eq_ok_iff {r s : Reader} {n : Nat} {head : Bytes} :
    r.take n = .ok (head, s) ↔ r.bytes = head ++ s.bytes ∧ head.length = n := by
  rw [take_eq]
  by_cases h : r.bytes.length < n
  · rw [if_pos h]
    refine ⟨fun h => (by cases h), fun ⟨hsplit, hlen⟩ => ?_⟩
    rw [hsplit, List.length_append] at h
    omega
  · rw [if_neg h]
    constructor
    · rintro ⟨⟩
      exact ⟨(List.take_append_drop n r.bytes).symm, List.length_take_of_le (by omega)⟩
    · rintro ⟨hsplit, rfl⟩
      rw [hsplit, List.take_left, List.drop_left]

theorem safe_take (r : Reader) (n : Nat) : Safe (r.take n) := by
  refine Safe.ite (fun _ => Safe.bail _) fun hlen => ?_
  exact (Safe.splitAt (Nat.le_of_not_lt hlen)).bind fun _ _ => Safe.ok _

theorem u8_eq_ok_iff {r s : Reader} {b : UInt8} : r.u8 = .ok (b, s) ↔ r.bytes = b :: s.bytes := by
  simp only [u8, bind_eq_ok_iff, Prod.exists, take_eq_ok_iff, pure_eq_ok_iff]
  constructor
  · rintro ⟨head, t, ⟨hsplit, hlen⟩, c, hindex, hpair⟩
    obtain ⟨x, rfl⟩ := List.length_eq_one_iff.1 hlen
    cases hindex
    cases hpair
    exact hsplit
  · intro h
    exact ⟨[b], s, ⟨h, rfl⟩, b, rfl, rfl⟩

theorem safe_u8 (r : Reader) : Safe r.u8 := by
  refine (safe_take r 1).bind fun p hp => ?_
  have hlen := (take_eq_ok_iff.1 hp).2
  exact (Safe.index (by omega)).bind fun _ _ => Safe.ok _

theorem u16_eq_ok_iff {r s : Reader} {n : Nat} :
    r.u16 = .ok (n, s) ↔ r.bytes = be16 n ++ s.bytes ∧ n < 65536 := by
  simp only [u16, bind_eq_ok_iff, Prod.exists, take_eq_ok_iff, pure_eq_ok_iff]
  constructor
  · rintro ⟨head, t, ⟨hsplit, hlen⟩, x, hx, y, hy, hpair⟩
    obtain ⟨a, b, rfl⟩ := List.length_eq_two.1 hlen
    cases hx
    cases hy
    cases hpair
    exact ⟨by rw [be16_u16 rfl, hsplit], u16_lt _⟩
  · rintro ⟨hsplit, hn⟩
    refine ⟨be16 n, s, ⟨hsplit, rfl⟩, _, rfl, _, rfl, ?_⟩
    exact congrArg (·, s) (u16_be16 hn)

theorem safe_u16 (r : Reader) : Safe r.u16 := by
  refine (safe_take r 2).bind fun p hp => ?_
  have hlen := (take_eq_ok_iff.1 hp).2
  exact (Safe.index (by omega)).bind fun _ _ => (Safe.index (by omega)).bind fun _ _ => Safe.ok _

theorem u24_eq_ok_iff {r s : Reader} {n : Nat} :
    r.u24 = .ok (n, s) ↔ r.bytes = be24 n ++ s.bytes ∧ n < 2 ^ 24 := by
  simp only [u24, bind_eq_ok_iff, Prod.exists, take_eq_ok_iff, pure_eq_ok_iff]
  constructor
  · rintro ⟨head, t, ⟨hsplit, hlen⟩, x, hx, y, hy, z, hz, hpair⟩
    obtain ⟨a, b, c, rfl⟩ := List.length_eq_three.1 hlen
    cases hx
    cases hy
    cases hz
    cases hpair
    exact ⟨by rw [be24_u24 rfl, hsplit], u24_lt _⟩
  · rintro ⟨hsplit, hn⟩
    refine ⟨be24 n, s, ⟨hsplit, rfl⟩, _, rfl, _, rfl, _, rfl, ?_⟩
    exact congrArg (·, s) (u24_be24 hn)

theorem safe_u24 (r : Reader) : Safe r.u24 := by
  refine (safe_take r 3).bind fun p hp => ?_
  have hlen := (take_eq_ok_iff.1 hp).2
  exact (Safe.index (by omega)).bind fun _ _ => (Safe.index (by omega)).bind fun _ _ =>
    (Safe.index (by omega)).bind fun _ _ => Safe.ok _

theorem vec8_eq_ok_iff {r s : Reader} {body : Bytes} :
    r.vec8 = .ok (body, s) ↔ r.bytes = Core.vec8 body ++ s.bytes ∧ body.length < 256 := by
  simp only [vec8, bind_eq_ok_iff, Prod.exists, u8_eq_ok_iff, take_eq_ok_iff]
  constructor
  · rintro ⟨n, t, hn, hsplit, hlen⟩
    refine ⟨?_, hlen ▸ UInt8.toNat_lt n⟩
    rw [hn, hsplit, Core.vec8, hlen, UInt8.ofNat_toNat]
    rfl
  · rintro ⟨hsplit, hlt⟩
    refine ⟨UInt8.ofNat body.length, ⟨body ++ s.bytes⟩, hsplit, rfl, ?_⟩
    rw [UInt8.toNat_ofNat', Nat.mod_eq_of_lt hlt]

theorem safe_vec8 (r : Reader) : Safe r.vec8 := (safe_u8 r).bind fun _ _ => safe_take _ _

theorem vec16_eq_ok_iff {r s : Reader} {body : Bytes} :
    r.vec16 = .ok (body, s) ↔ r.bytes = frame body ++ s.bytes ∧ body.length < 65536 := by
  simp only [vec16, bind_eq_ok_iff, Prod.exists, u16_eq_ok_iff, take_eq_ok_iff]
  constructor
  · rintro ⟨n, t, ⟨hn, hlt⟩, hsplit, rfl⟩
    refine ⟨?_, hlt⟩
    rw [hn, hsplit, frame, List.append_assoc]
  · rintro ⟨hsplit, hlt⟩
    refine ⟨body.length, ⟨body ++ s.bytes⟩, ⟨?_, hlt⟩, rfl, rfl⟩
    rw [hsplit, frame, List.append_assoc]

theorem safe_vec16 (r : Reader) : Safe r.vec16 := (safe_u16 r).bind fun _ _ => safe_take _ _

end Reader

/-! ### The parser -/

/-- `HANDSHAKE_RECORD`. -/
def handshakeRecord : UInt8 := 0x16

/-- `CLIENT_HELLO`. -/
def clientHello : UInt8 := 0x01

/-- `EXT_SERVER_NAME`. -/
def extServerName : Nat := 0

/-- `NAME_TYPE_HOST`. -/
def nameTypeHost : UInt8 := 0

/-- One entry of a name list. -/
def Reader.name (list : Reader) : Parse ((UInt8 × Bytes) × Reader) := do
  let (nameType, list) ← list.u8
  let (name, list) ← list.vec16
  return ((nameType, name), list)

theorem Reader.name_eq_ok_iff {r s : Reader} {nameType : UInt8} {name : Bytes} :
    r.name = .ok ((nameType, name), s) ↔
      r.bytes = nameType :: (frame name ++ s.bytes) ∧ name.length < 65536 := by
  simp only [Reader.name, bind_eq_ok_iff, Prod.exists, u8_eq_ok_iff, vec16_eq_ok_iff, pure_eq_ok_iff]
  constructor
  · rintro ⟨t, q, hq, n, u, ⟨hu, hlt⟩, hpair⟩
    cases hpair
    exact ⟨by rw [hq, hu], hlt⟩
  · rintro ⟨hsplit, hlt⟩
    exact ⟨nameType, ⟨frame name ++ s.bytes⟩, hsplit, name, s, ⟨rfl, hlt⟩, rfl⟩

theorem Reader.safe_name (r : Reader) : Safe r.name :=
  (safe_u8 r).bind fun _ _ => (safe_vec16 _).bind fun _ _ => Safe.ok _

/-- The loop of `parse_server_name`. -/
def parseNames (list : Reader) : Parse (Option String) :=
  if list.isEmpty then .ok none
  else
    match _h : list.name with
    | .ok ((nameType, name), rest) =>
        if nameType = nameTypeHost then .ok (hostName name) else parseNames rest
    | .error e => .error e
termination_by list.bytes.length
decreasing_by
  rw [(Reader.name_eq_ok_iff.1 _h).1, List.length_cons, List.length_append]
  omega

def parseServerName (data : Bytes) : Parse (Option String) := do
  let r : Reader := ⟨data⟩
  let (list, _) ← r.vec16
  parseNames ⟨list⟩

/-- One extension. -/
def Reader.extension (exts : Reader) : Parse ((Nat × Bytes) × Reader) := do
  let (kind, exts) ← exts.u16
  let (data, exts) ← exts.vec16
  return ((kind, data), exts)

theorem Reader.extension_eq_ok_iff {r s : Reader} {kind : Nat} {data : Bytes} :
    r.extension = .ok ((kind, data), s) ↔
      r.bytes = be16 kind ++ (frame data ++ s.bytes) ∧ kind < 65536 ∧ data.length < 65536 := by
  simp only [Reader.extension, bind_eq_ok_iff, Prod.exists, u16_eq_ok_iff, vec16_eq_ok_iff,
    pure_eq_ok_iff]
  constructor
  · rintro ⟨k, q, ⟨hq, hk⟩, n, u, ⟨hu, hlt⟩, hpair⟩
    cases hpair
    exact ⟨by rw [hq, hu], hk, hlt⟩
  · rintro ⟨hsplit, hk, hlt⟩
    exact ⟨kind, ⟨frame data ++ s.bytes⟩, ⟨hsplit, hk⟩, data, s, ⟨rfl, hlt⟩, rfl⟩

theorem Reader.safe_extension (r : Reader) : Safe r.extension :=
  (safe_u16 r).bind fun _ _ => (safe_vec16 _).bind fun _ _ => Safe.ok _

/-- The loop of `parse_handshake`. -/
def parseExtensions (exts : Reader) : Parse (Option String) :=
  if exts.isEmpty then .ok none
  else
    match _h : exts.extension with
    | .ok ((kind, data), rest) =>
        if kind = extServerName then parseServerName data else parseExtensions rest
    | .error e => .error e
termination_by exts.bytes.length
decreasing_by
  rw [(Reader.extension_eq_ok_iff.1 _h).1, List.length_append, length_be16, List.length_append]
  omega

/-- `parse_handshake`, from the extensions on. -/
def parseExtensionBlock (hello : Reader) : Parse (Option String) :=
  if hello.isEmpty then .ok none -- a hello with no extensions at all
  else do
    let (exts, _) ← hello.vec16
    parseExtensions ⟨exts⟩

/-- `parse_handshake`, from the hello on. -/
def parseHello (hello : Reader) : Parse (Option String) := do
  let (_, hello) ← hello.take 2 -- legacy_version
  let (_, hello) ← hello.take 32 -- random
  let (_sessionId, hello) ← hello.vec8
  let (_suites, hello) ← hello.vec16
  let (_compression, hello) ← hello.vec8
  parseExtensionBlock hello

def parseHandshake (body : Bytes) : Parse (Option String) := do
  let r : Reader := ⟨body⟩
  let (kind, r) ← r.u8
  if kind ≠ clientHello then bail .notClientHello
  else do
    let (helloLen, r) ← r.u24
    let (hello, _) ← (r.take helloLen).context .spansSeveralRecords
    parseHello ⟨hello⟩

/-- `check_header`, with its reads. -/
def checkRecordHeader (header : Bytes) : Parse Nat := do
  let kind ← index header 0
  if kind ≠ handshakeRecord then bail .notHandshake
  else do
    let major ← index header 1
    if major ≠ 3 then bail .notHandshake
    else do
      let len := u16 [← index header 3, ← index header 4]
      if len = 0 ∨ maxRecordBody < len then bail (.implausibleLength len) else return len

/-- Extracts the SNI from one complete TLS record (header included). -/
def parseRecord (record : Bytes) : Parse (Option String) :=
  if record.length < recordHeaderLen then bail .truncatedHeader
  else do
    let header ← range record 0 recordHeaderLen
    let bodyLen ← checkRecordHeader header
    match slice record recordHeaderLen (recordHeaderLen + bodyLen) with
    | none => bail .truncatedRecord
    | some body => parseHandshake body

/-! ### The grammar -/

/-- A list of names that is well formed up to its first entry of type 0, with that entry's bytes; or all
of it, if it has no such entry. -/
inductive NameList : Bytes → Option Bytes → Prop
  | nil : NameList [] none
  | host {name rest : Bytes} (h : name.length < 65536) :
      NameList (0x00 :: (frame name ++ rest)) (some name)
  | other {nameType : UInt8} {name rest : Bytes} {found : Option Bytes} (htype : nameType ≠ 0x00)
      (h : name.length < 65536) (hrest : NameList rest found) :
      NameList (nameType :: (frame name ++ rest)) found

/-- Extensions that are well formed up to the first one of type 0, with its data. -/
inductive Extensions : Bytes → Option Bytes → Prop
  | nil : Extensions [] none
  | serverName {data rest : Bytes} (h : data.length < 65536) :
      Extensions (be16 0 ++ (frame data ++ rest)) (some data)
  | other {kind : Nat} {data rest : Bytes} {found : Option Bytes} (hkind : 0 < kind ∧ kind < 65536)
      (h : data.length < 65536) (hrest : Extensions rest found) :
      Extensions (be16 kind ++ (frame data ++ rest)) found

/-- The data of that extension. -/
def ServerName (data : Bytes) (found : Option Bytes) : Prop :=
  ∃ list rest, list.length < 65536 ∧ data = frame list ++ rest ∧ NameList list found

/-- The name in the first extension of type 0. -/
def ExtensionName (exts : Bytes) (found : Option Bytes) : Prop :=
  (Extensions exts none ∧ found = none) ∨ ∃ data, Extensions exts (some data) ∧ ServerName data found

/-- What stands at the end of a hello: nothing, or a block of extensions and any bytes. -/
inductive ExtensionBlock : Bytes → Option Bytes → Prop
  | none : ExtensionBlock [] none
  | block {exts rest : Bytes} {found : Option Bytes} (h : exts.length < 65536)
      (hname : ExtensionName exts found) : ExtensionBlock (frame exts ++ rest) found

def ClientHello (hello : Bytes) (found : Option Bytes) : Prop :=
  ∃ version random session suites compression tail,
    version.length = 2 ∧ random.length = 32 ∧ session.length < 256 ∧ suites.length < 65536 ∧
      compression.length < 256 ∧
      hello = version ++ random ++ vec8 session ++ frame suites ++ vec8 compression ++ tail ∧
      ExtensionBlock tail found

def Handshake (body : Bytes) (found : Option Bytes) : Prop :=
  ∃ hello rest, hello.length < 2 ^ 24 ∧ body = 0x01 :: (be24 hello.length ++ hello ++ rest) ∧
    ClientHello hello found

def HelloRecord (record : Bytes) (found : Option Bytes) : Prop :=
  ∃ version body rest, 1 ≤ body.length ∧ body.length ≤ 16384 ∧
    record = 0x16 :: 0x03 :: version :: (frame body ++ rest) ∧ Handshake body found

/-! ### The parser decides the grammar -/

variable {o : Option String}

theorem isEmpty_eq_true_iff {r : Reader} : r.isEmpty = true ↔ r.bytes = [] := List.isEmpty_iff

theorem nameList_of_parseNames (r : Reader) (h : parseNames r = .ok o) :
    ∃ found, NameList r.bytes found ∧ o = found.bind hostName := by
  fun_induction parseNames r with
  | case1 r hempty =>
      cases h
      exact ⟨none, isEmpty_eq_true_iff.1 hempty ▸ NameList.nil, rfl⟩
  | case2 r hempty name rest hentry =>
      cases h
      obtain ⟨hsplit, hlt⟩ := Reader.name_eq_ok_iff.1 hentry
      exact ⟨some name, hsplit ▸ NameList.host hlt, rfl⟩
  | case3 r hempty nameType name rest hentry htype ih =>
      obtain ⟨hsplit, hlt⟩ := Reader.name_eq_ok_iff.1 hentry
      obtain ⟨found, hfound, ho⟩ := ih h
      exact ⟨found, hsplit ▸ NameList.other htype hlt hfound, ho⟩
  | case4 r hempty e hentry => cases h

theorem parseNames_of_nameList {list : Bytes} {found : Option Bytes} (h : NameList list found) :
    parseNames ⟨list⟩ = .ok (found.bind hostName) := by
  induction h with
  | nil =>
      rw [parseNames]
      rfl
  | @host name rest hlt =>
      have hentry : Reader.name ⟨0x00 :: (frame name ++ rest)⟩ = .ok ((0x00, name), ⟨rest⟩) :=
        Reader.name_eq_ok_iff.2 ⟨rfl, hlt⟩
      rw [parseNames, if_neg (by simp [Reader.isEmpty])]
      split
      · rename_i hread
        cases hentry.symm.trans hread
        exact if_pos rfl
      · rename_i hread
        cases hentry.symm.trans hread
  | @other nameType name rest found htype hlt hrest ih =>
      have hentry : Reader.name ⟨nameType :: (frame name ++ rest)⟩ =
          .ok ((nameType, name), ⟨rest⟩) := Reader.name_eq_ok_iff.2 ⟨rfl, hlt⟩
      rw [parseNames, if_neg (by simp [Reader.isEmpty])]
      split
      · rename_i hread
        cases hentry.symm.trans hread
        exact (if_neg htype).trans ih
      · rename_i hread
        cases hentry.symm.trans hread

theorem safe_parseNames (r : Reader) : Safe (parseNames r) := by
  fun_induction parseNames r with
  | case1 => exact Safe.ok _
  | case2 => exact Safe.ok _
  | case3 r hempty nameType name rest hentry htype ih => exact ih
  | case4 r hempty e hentry =>
      have hsafe := Reader.safe_name r
      rw [hentry] at hsafe
      exact fun h => hsafe (by cases h; rfl)

theorem parseServerName_eq_ok_iff {data : Bytes} :
    parseServerName data = .ok o ↔ ∃ found, ServerName data found ∧ o = found.bind hostName := by
  simp only [parseServerName, bind_eq_ok_iff, Prod.exists, Reader.vec16_eq_ok_iff]
  constructor
  · rintro ⟨list, s, ⟨hsplit, hlt⟩, h⟩
    obtain ⟨found, hfound, ho⟩ := nameList_of_parseNames _ h
    exact ⟨found, ⟨list, s.bytes, hlt, hsplit, hfound⟩, ho⟩
  · rintro ⟨found, ⟨list, rest, hlt, hsplit, hfound⟩, rfl⟩
    exact ⟨list, ⟨rest⟩, ⟨hsplit, hlt⟩, parseNames_of_nameList hfound⟩

theorem safe_parseServerName (data : Bytes) : Safe (parseServerName data) :=
  (Reader.safe_vec16 _).bind fun _ _ => safe_parseNames _

theorem ExtensionName.other {kind : Nat} {data rest : Bytes} {found : Option Bytes}
    (h : ExtensionName rest found) (hkind : 0 < kind ∧ kind < 65536) (hlt : data.length < 65536) :
    ExtensionName (be16 kind ++ (frame data ++ rest)) found := by
  rcases h with ⟨hexts, hnone⟩ | ⟨name, hexts, hname⟩
  · exact Or.inl ⟨hexts.other hkind hlt, hnone⟩
  · exact Or.inr ⟨name, hexts.other hkind hlt, hname⟩

theorem extensionName_of_parseExtensions (r : Reader) (h : parseExtensions r = .ok o) :
    ∃ found, ExtensionName r.bytes found ∧ o = found.bind hostName := by
  fun_induction parseExtensions r with
  | case1 r hempty =>
      cases h
      exact ⟨none, Or.inl ⟨isEmpty_eq_true_iff.1 hempty ▸ Extensions.nil, rfl⟩, rfl⟩
  | case2 r hempty data rest hentry =>
      obtain ⟨hsplit, -, hlt⟩ := Reader.extension_eq_ok_iff.1 hentry
      obtain ⟨found, hfound, ho⟩ := parseServerName_eq_ok_iff.1 h
      exact ⟨found, Or.inr ⟨data, hsplit ▸ Extensions.serverName hlt, hfound⟩, ho⟩
  | case3 r hempty kind data rest hentry hkind ih =>
      obtain ⟨hsplit, hlt16, hlt⟩ := Reader.extension_eq_ok_iff.1 hentry
      obtain ⟨found, hfound, ho⟩ := ih h
      exact ⟨found, hsplit ▸ hfound.other ⟨Nat.pos_of_ne_zero hkind, hlt16⟩ hlt, ho⟩
  | case4 r hempty e hentry => cases h

/-- The loop on the bytes of extensions: the first one of type 0 is looked into. -/
theorem parseExtensions_of_extensions {exts : Bytes} {found : Option Bytes} (h : Extensions exts found) :
    parseExtensions ⟨exts⟩ = found.elim (.ok none) parseServerName := by
  induction h with
  | nil =>
      rw [parseExtensions]
      rfl
  | @serverName data rest hlt =>
      have hentry : Reader.extension ⟨be16 0 ++ (frame data ++ rest)⟩ = .ok ((0, data), ⟨rest⟩) :=
        Reader.extension_eq_ok_iff.2 ⟨rfl, by omega, hlt⟩
      rw [parseExtensions, if_neg (by simp [Reader.isEmpty, be16])]
      split
      · rename_i hread
        cases hentry.symm.trans hread
        exact if_pos rfl
      · rename_i hread
        cases hentry.symm.trans hread
  | @other kind data rest found hkind hlt hrest ih =>
      have hentry : Reader.extension ⟨be16 kind ++ (frame data ++ rest)⟩ =
          .ok ((kind, data), ⟨rest⟩) := Reader.extension_eq_ok_iff.2 ⟨rfl, hkind.2, hlt⟩
      rw [parseExtensions, if_neg (by simp [Reader.isEmpty, be16])]
      split
      · rename_i hread
        cases hentry.symm.trans hread
        exact (if_neg (Nat.ne_of_gt hkind.1)).trans ih
      · rename_i hread
        cases hentry.symm.trans hread

theorem safe_parseExtensions (r : Reader) : Safe (parseExtensions r) := by
  fun_induction parseExtensions r with
  | case1 => exact Safe.ok _
  | case2 => exact safe_parseServerName _
  | case3 r hempty kind data rest hentry hkind ih => exact ih
  | case4 r hempty e hentry =>
      have hsafe := Reader.safe_extension r
      rw [hentry] at hsafe
      exact fun h => hsafe (by cases h; rfl)

theorem parseExtensions_eq_ok_iff {exts : Bytes} :
    parseExtensions ⟨exts⟩ = .ok o ↔ ∃ found, ExtensionName exts found ∧ o = found.bind hostName := by
  refine ⟨extensionName_of_parseExtensions _, ?_⟩
  rintro ⟨found, ⟨hexts, rfl⟩ | ⟨data, hexts, hname⟩, rfl⟩
  · exact parseExtensions_of_extensions hexts
  · rw [parseExtensions_of_extensions hexts]
    exact parseServerName_eq_ok_iff.2 ⟨found, hname, rfl⟩

theorem parseExtensionBlock_eq_ok_iff {r : Reader} :
    parseExtensionBlock r = .ok o ↔ ∃ found, ExtensionBlock r.bytes found ∧ o = found.bind hostName := by
  unfold parseExtensionBlock
  by_cases hempty : r.isEmpty = true
  · rw [if_pos hempty]
    have hnil := isEmpty_eq_true_iff.1 hempty
    constructor
    · rintro ⟨⟩
      exact ⟨none, hnil ▸ ExtensionBlock.none, rfl⟩
    · rintro ⟨found, hblock, rfl⟩
      rw [hnil] at hblock
      cases hblock
      rfl
  · rw [if_neg hempty]
    simp only [bind_eq_ok_iff, Prod.exists, Reader.vec16_eq_ok_iff, parseExtensions_eq_ok_iff]
    constructor
    · rintro ⟨exts, s, ⟨hsplit, hlt⟩, found, hname, ho⟩
      exact ⟨found, hsplit ▸ ExtensionBlock.block hlt hname, ho⟩
    · rintro ⟨found, hblock, ho⟩
      generalize hbytes : r.bytes = bytes at hblock
      cases hblock with
      | none => exact absurd (isEmpty_eq_true_iff.2 hbytes) hempty
      | @block exts rest _ hlt hname => exact ⟨exts, ⟨rest⟩, ⟨rfl, hlt⟩, found, hname, ho⟩

theorem parseHello_eq_ok_iff {hello : Bytes} :
    parseHello ⟨hello⟩ = .ok o ↔ ∃ found, ClientHello hello found ∧ o = found.bind hostName := by
  simp only [parseHello, bind_eq_ok_iff, Prod.exists, Reader.take_eq_ok_iff, Reader.vec8_eq_ok_iff,
    Reader.vec16_eq_ok_iff, parseExtensionBlock_eq_ok_iff]
  constructor
  · rintro ⟨version, r₁, ⟨h₁, hversion⟩, random, r₂, ⟨h₂, hrandom⟩, session, r₃, ⟨h₃, hsession⟩,
      suites, r₄, ⟨h₄, hsuites⟩, compression, r₅, ⟨h₅, hcompression⟩, found, hblock, ho⟩
    refine ⟨found, ⟨version, random, session, suites, compression, r₅.bytes, hversion, hrandom,
      hsession, hsuites, hcompression, ?_, hblock⟩, ho⟩
    simp only [List.append_assoc, ← h₅, ← h₄, ← h₃, ← h₂]
    exact h₁
  · rintro ⟨found, ⟨version, random, session, suites, compression, tail, hversion, hrandom, hsession,
      hsuites, hcompression, rfl, hblock⟩, ho⟩
    refine ⟨version, ⟨_⟩, ⟨?_, hversion⟩, random, ⟨_⟩, ⟨rfl, hrandom⟩, session, ⟨_⟩, ⟨rfl, hsession⟩,
      suites, ⟨_⟩, ⟨rfl, hsuites⟩, compression, ⟨tail⟩, ⟨rfl, hcompression⟩, found, hblock, ho⟩
    simp only [List.append_assoc]

theorem parseHandshake_eq_ok_iff {body : Bytes} :
    parseHandshake body = .ok o ↔ ∃ found, Handshake body found ∧ o = found.bind hostName := by
  simp only [parseHandshake, bind_eq_ok_iff, Prod.exists, Reader.u8_eq_ok_iff]
  constructor
  · rintro ⟨kind, r, hkind, h⟩
    by_cases hhello : kind ≠ clientHello
    · rw [if_pos hhello] at h
      cases h
    · rw [if_neg hhello] at h
      simp only [bind_eq_ok_iff, Prod.exists, context_eq_ok_iff, Reader.u24_eq_ok_iff,
        Reader.take_eq_ok_iff, parseHello_eq_ok_iff] at h
      obtain ⟨n, s, ⟨hs, hlt⟩, hello, t, ⟨ht, rfl⟩, found, hfound, ho⟩ := h
      refine ⟨found, ⟨hello, t.bytes, hlt, ?_, hfound⟩, ho⟩
      rw [hkind, hs, ht, not_not.1 hhello, List.append_assoc]
      rfl
  · rintro ⟨found, ⟨hello, rest, hlt, rfl, hfound⟩, ho⟩
    refine ⟨0x01, ⟨_⟩, rfl, ?_⟩
    rw [if_neg (by decide)]
    simp only [bind_eq_ok_iff, Prod.exists, context_eq_ok_iff, Reader.u24_eq_ok_iff,
      Reader.take_eq_ok_iff, parseHello_eq_ok_iff]
    exact ⟨hello.length, ⟨hello ++ rest⟩, ⟨List.append_assoc .., hlt⟩, hello, ⟨rest⟩, ⟨rfl, rfl⟩, found,
      hfound, ho⟩

theorem checkRecordHeader_eq (a b c d e : UInt8) :
    checkRecordHeader [a, b, c, d, e] =
      if a ≠ handshakeRecord then bail .notHandshake
      else if b ≠ 3 then bail .notHandshake
      else if u16 [d, e] = 0 ∨ maxRecordBody < u16 [d, e] then bail (.implausibleLength (u16 [d, e]))
      else .ok (u16 [d, e]) := rfl

/-- **The header that is accepted**: a handshake record of a plausible length. -/
theorem checkRecordHeader_eq_ok_iff {a b c d e : UInt8} {len : Nat} :
    checkRecordHeader [a, b, c, d, e] = .ok len ↔
      1 ≤ len ∧ len ≤ maxRecordBody ∧ a = 0x16 ∧ b = 0x03 ∧ [d, e] = be16 len := by
  rw [checkRecordHeader_eq]
  constructor
  · intro h
    split at h
    · cases h
    rename_i ha
    split at h
    · cases h
    rename_i hb
    split at h
    · cases h
    rename_i hlen
    cases h
    exact ⟨by omega, by omega, not_not.1 ha, not_not.1 hb, (be16_u16 rfl).symm⟩
  · rintro ⟨hpos, hle, rfl, rfl, hbytes⟩
    have hlen : u16 [d, e] = len := by
      rw [hbytes, u16_be16 (by simp only [maxRecordBody] at hle; omega)]
    rw [hlen, if_neg (by decide), if_neg (by decide), if_neg (by omega)]

/-- `read_record` looks at the header in the same way. -/
theorem checkHeader_eq_some_iff {a b c d e : UInt8} {len : Nat} :
    checkHeader [a, b, c, d, e] = some len ↔ checkRecordHeader [a, b, c, d, e] = .ok len := by
  have heq : checkHeader [a, b, c, d, e] =
      if a ≠ 0x16 ∨ b ≠ 3 then none
      else if u16 [d, e] = 0 ∨ maxRecordBody < u16 [d, e] then none else some (u16 [d, e]) := rfl
  rw [heq, checkRecordHeader_eq]
  by_cases ha : a ≠ 0x16
  · have hfirst : a ≠ 0x16 ∨ b ≠ 3 := Or.inl ha
    have hkind : a ≠ handshakeRecord := ha
    rw [if_pos hfirst, if_pos hkind]
    exact ⟨fun h => (by cases h), fun h => (by cases h)⟩
  · have hkind : ¬a ≠ handshakeRecord := ha
    rw [if_neg hkind]
    by_cases hb : b ≠ 3
    · have hfirst : a ≠ 0x16 ∨ b ≠ 3 := Or.inr hb
      rw [if_pos hfirst, if_pos hb]
      exact ⟨fun h => (by cases h), fun h => (by cases h)⟩
    · have hfirst : ¬(a ≠ 0x16 ∨ b ≠ 3) := not_or.2 ⟨ha, hb⟩
      rw [if_neg hfirst, if_neg hb]
      split
      · exact ⟨fun h => (by cases h), fun h => (by cases h)⟩
      · rw [Option.some.injEq]
        exact ⟨fun h => congrArg Except.ok h, fun h => Except.ok.inj h⟩

/-- `parse_record` on a header and what follows it. -/
theorem parseRecord_eq (a b c d e : UInt8) (rest : Bytes) :
    parseRecord (a :: b :: c :: d :: e :: rest) =
      checkRecordHeader [a, b, c, d, e] >>= fun len =>
        if rest.length < len then bail .truncatedRecord else parseHandshake (rest.take len) := by
  have hheader : slice (a :: b :: c :: d :: e :: rest) 0 recordHeaderLen = some [a, b, c, d, e] :=
    slice_eq_some (Nat.zero_le _) (by simp [recordHeaderLen])
  have hbody : ∀ len, slice (a :: b :: c :: d :: e :: rest) recordHeaderLen (recordHeaderLen + len) =
      if rest.length < len then none else some (rest.take len) := by
    intro len
    by_cases hlen : rest.length < len
    · rw [if_pos hlen, slice, if_neg]
      simp [recordHeaderLen]
      omega
    · rw [if_neg hlen, slice_eq_some (by omega) (by simp [recordHeaderLen]; omega), Nat.add_comm]
      rfl
  rw [parseRecord, if_neg (by simp [recordHeaderLen]), range, hheader]
  refine congrArg (checkRecordHeader [a, b, c, d, e] >>= ·) (funext fun len => ?_)
  rw [hbody]
  by_cases hlen : rest.length < len
  · rw [if_pos hlen, if_pos hlen]
  · rw [if_neg hlen, if_neg hlen]

/-- Shorter records have no header. -/
theorem parseRecord_cases (record : Bytes) :
    (record.length < recordHeaderLen ∧ parseRecord record = bail .truncatedHeader) ∨
      ∃ a b c d e rest, record = a :: b :: c :: d :: e :: rest := by
  by_cases h : record.length < recordHeaderLen
  · exact Or.inl ⟨h, if_pos h⟩
  · match record, h with
    | a :: b :: c :: d :: e :: rest, _ => exact Or.inr ⟨a, b, c, d, e, rest, rfl⟩
    | [], h | [_], h | [_, _], h | [_, _, _], h | [_, _, _, _], h =>
        exact absurd h (by simp [recordHeaderLen])

theorem parseRecord_eq_ok_iff {record : Bytes} :
    parseRecord record = .ok o ↔ ∃ found, HelloRecord record found ∧ o = found.bind hostName := by
  rcases parseRecord_cases record with ⟨hshort, hbail⟩ | ⟨a, b, c, d, e, rest, rfl⟩
  · rw [hbail]
    refine ⟨fun h => (by cases h), fun ⟨found, ⟨version, body, rest, _, _, hsplit, _⟩, _⟩ => ?_⟩
    rw [hsplit] at hshort
    simp only [recordHeaderLen, frame, be16, List.length_cons, List.length_append] at hshort
    omega
  · rw [parseRecord_eq, bind_eq_ok_iff]
    constructor
    · rintro ⟨len, hcheck, h⟩
      obtain ⟨hpos, hle, rfl, rfl, hlen⟩ := checkRecordHeader_eq_ok_iff.1 hcheck
      split at h
      · cases h
      rename_i hfits
      obtain ⟨found, hfound, ho⟩ := parseHandshake_eq_ok_iff.1 h
      have hbody : (rest.take len).length = len := List.length_take_of_le (by omega)
      refine ⟨found, ⟨c, rest.take len, rest.drop len, hbody.symm ▸ hpos, hbody.symm ▸ hle, ?_, hfound⟩,
        ho⟩
      rw [frame, hbody, ← hlen, List.append_assoc, List.take_append_drop]
      rfl
    · rintro ⟨found, ⟨version, body, tail, hpos, hle, hsplit, hfound⟩, ho⟩
      cases hsplit
      refine ⟨body.length, checkRecordHeader_eq_ok_iff.2 ⟨hpos, hle, rfl, rfl, rfl⟩, ?_⟩
      have htake : (body ++ tail).take body.length = body := List.take_left
      have hfits : ¬(body ++ tail).length < body.length := by simp
      refine (if_neg hfits).trans ?_
      exact parseHandshake_eq_ok_iff.2 ⟨found, htake.symm ▸ hfound, ho⟩

theorem safe_parseHello (hello : Reader) : Safe (parseHello hello) := by
  refine (Reader.safe_take _ _).bind fun _ _ => (Reader.safe_take _ _).bind fun _ _ =>
    (Reader.safe_vec8 _).bind fun _ _ => (Reader.safe_vec16 _).bind fun _ _ =>
      (Reader.safe_vec8 _).bind fun _ _ => Safe.ite (fun _ => Safe.ok _) fun _ => ?_
  exact (Reader.safe_vec16 _).bind fun _ _ => safe_parseExtensions _

theorem safe_parseHandshake (body : Bytes) : Safe (parseHandshake body) := by
  refine (Reader.safe_u8 _).bind fun _ _ => Safe.ite (fun _ => Safe.bail _) fun _ => ?_
  exact (Reader.safe_u24 _).bind fun _ _ => ((Reader.safe_take _ _).context _).bind fun _ _ =>
    safe_parseHello _

theorem safe_checkRecordHeader {header : Bytes} (h : header.length = recordHeaderLen) :
    Safe (checkRecordHeader header) := by
  have hindex : ∀ i, i < 5 → Safe (index header i : Parse _) := fun i hi =>
    Safe.index (by rw [h]; exact hi)
  refine (hindex 0 (by omega)).bind fun _ _ => Safe.ite (fun _ => Safe.bail _) fun _ => ?_
  refine (hindex 1 (by omega)).bind fun _ _ => Safe.ite (fun _ => Safe.bail _) fun _ => ?_
  refine (hindex 3 (by omega)).bind fun _ _ => (hindex 4 (by omega)).bind fun _ _ => ?_
  exact Safe.ite (fun _ => Safe.bail _) fun _ => Safe.ok _

theorem safe_parseRecord (record : Bytes) : Safe (parseRecord record) := by
  refine Safe.ite (fun _ => Safe.bail _) fun hlen => ?_
  refine (Safe.range (Nat.zero_le _) (Nat.le_of_not_lt hlen)).bind fun header hheader => ?_
  -- the header is as long as the fixed indexes of `check_header` need it to be
  refine (safe_checkRecordHeader (Checked.length_of_range hheader)).bind fun len _ => ?_
  split
  · exact Safe.bail _
  · exact safe_parseHandshake _

/-- **The parser decides the grammar.**  For every byte string, `parse_record` reads nothing out of
bounds; it returns the name of the record if that is usable, nothing if the record is well formed without
a usable name, and an error if it is not well formed. -/
theorem parseRecord_decides (record : Bytes) :
    Safe (parseRecord record)
      ∧ (∀ name, parseRecord record = .ok (some name) ↔
          ∃ raw, HelloRecord record (some raw) ∧ Usable raw ∧ name.toUTF8 = raw.toByteArray)
      ∧ (parseRecord record = .ok none ↔
          ∃ found, HelloRecord record found ∧ ∀ raw, found = some raw → ¬Usable raw)
      ∧ ((∃ e, parseRecord record = bail e) ↔ ¬∃ found, HelloRecord record found) := by
  refine ⟨safe_parseRecord record, fun name => ?_, ?_, ?_⟩
  · rw [parseRecord_eq_ok_iff]
    constructor
    · rintro ⟨found, hfound, ho⟩
      obtain ⟨raw, rfl, hname⟩ := Option.bind_eq_some_iff.1 ho.symm
      exact ⟨raw, hfound, hostName_eq_some_iff.1 hname⟩
    · rintro ⟨raw, hfound, hname⟩
      exact ⟨some raw, hfound, (hostName_eq_some_iff.2 hname).symm⟩
  · rw [parseRecord_eq_ok_iff]
    refine exists_congr fun found => and_congr_right fun _ => ?_
    rw [eq_comm, Option.bind_eq_none_iff]
    exact forall₂_congr fun raw _ => hostName_eq_none_iff
  · rw [(safe_parseRecord record).error_iff, not_iff_not]
    constructor
    · rintro ⟨o, ho⟩
      obtain ⟨found, hfound, -⟩ := parseRecord_eq_ok_iff.1 ho
      exact ⟨found, hfound⟩
    · rintro ⟨found, hfound⟩
      exact ⟨_, parseRecord_eq_ok_iff.2 ⟨found, hfound, rfl⟩⟩

end Sni
end Erbridge
