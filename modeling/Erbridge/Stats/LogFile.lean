import Erbridge.Reverse.Credentials
import Erbridge.Stats.Registry

/-!
# The log file

The model of what `push_event` of `stats.rs` makes of an event: the line of the ring that the TUI shows
(`Display`), and the line of JSON that is appended to the log file, with the time and with all fields
of the event.  `serde_json::to_string`, which prints that line, is a parameter.

* `LoggedEvent` — an event with the duration that `Event` leaves out.
* `OneLine` — what is relied on.
* `splitOn_logFile` — cut at the newlines, the file is the printed lines, one for each event.
* `JsonLogLine.json` — a printer that is as `serde_json::to_string`.
-/

namespace Erbridge
namespace Stats

open Erbridge.Core
open Reverse (jsonString utf8)

/-- `Protocol` as it is displayed and as it is serialised. -/
def Protocol.name : Protocol → String
  | .tcp => "tcp"
  | .udp => "udp"

/-- An event with all its fields. -/
inductive LoggedEvent
  | connectionOpened (info : ConnectionInfo)
  | connectionClosed (info : ConnectionInfo) (bytesIn bytesOut durationMs : Nat)
  | info (message : String)
  | error (message : String)
deriving DecidableEq

/-- The tag that `serde` gives an event: the name of the variant in snake case. -/
inductive Kind
  | connectionOpened
  | connectionClosed
  | info
  | error
deriving DecidableEq

def Kind.name : Kind → String
  | .connectionOpened => "connection_opened"
  | .connectionClosed => "connection_closed"
  | .info => "info"
  | .error => "error"

namespace LoggedEvent

/-- The event without its duration. -/
def event : LoggedEvent → Event
  | .connectionOpened i => .connectionOpened i
  | .connectionClosed i bytesIn bytesOut _ => .connectionClosed i bytesIn bytesOut
  | .info message => .info message
  | .error message => .error message

/-- `impl Display for Event`. -/
def display : LoggedEvent → String
  | .connectionOpened i =>
      s!"[open] {i.label} {i.protocol.name} {i.source} -> {i.destination}"
  | .connectionClosed i bytesIn bytesOut durationMs =>
      s!"[close] {i.label} {i.protocol.name} {i.source} -> {i.destination} "
        ++ s!"in={bytesIn}B out={bytesOut}B dur={durationMs}ms"
  | .info message => s!"[info] {message}"
  | .error message => s!"[error] {message}"

end LoggedEvent

structure JsonLogLine where
  tsUnixMs : Nat
  event : LoggedEvent
deriving DecidableEq

def newline : UInt8 := 10

/-- `serde_json::to_string` prints no newline. -/
def OneLine (print : JsonLogLine → Bytes) : Prop := ∀ l, newline ∉ print l

/-- The file that these lines were written to, each with a newline behind it. -/
def logFile (print : JsonLogLine → Bytes) (lines : List JsonLogLine) : Bytes :=
  lines.flatMap fun l => print l ++ [newline]

theorem logFile_concat (print : JsonLogLine → Bytes) (lines : List JsonLogLine) (l : JsonLogLine) :
    logFile print (lines ++ [l]) = logFile print lines ++ (print l ++ [newline]) := by
  simp [logFile]

/-- Each event stands on a line of its own. -/
theorem splitOn_logFile {print : JsonLogLine → Bytes} (hline : OneLine print)
    (lines : List JsonLogLine) :
    (logFile print lines).splitOn newline = lines.map print ++ [[]] := by
  induction lines with
  | nil => rfl
  | cons l lines ih =>
      have hfront : ∀ b ∈ print l, (b == newline) = false := by
        intro b hb
        rw [beq_eq_false_iff_ne]
        rintro rfl
        exact hline l hb
      have hsplit : logFile print (l :: lines) = print l ++ newline :: logFile print lines := by
        simp [logFile]
      rw [List.splitOn_eq_splitOnP] at ih ⊢
      rw [hsplit, List.splitOnP_append_cons_of_forall_mem hfront _ (beq_self_eq_true newline), ih]
      rfl

/-! ## A printer -/

/-- What `serde_json` prints for an unsigned integer. -/
def jsonNat (n : Nat) : List Char := Nat.toDigits 10 n

/-- A field behind another one: its name and the text of its value. -/
def field (name : String) (value : List Char) : List Char :=
  ",\"".toList ++ (name.toList ++ ("\":".toList ++ value))

/-- The fields that both events of a connection begin with. -/
def connectionFields (i : ConnectionInfo) (more : List Char) : List Char :=
  field "id" (jsonNat i.id) ++ (field "label" (jsonString i.label) ++
    (field "protocol" (jsonString i.protocol.name) ++ (field "source" (jsonString i.source) ++
      (field "destination" (jsonString i.destination) ++ more))))

/-- The field of the tag. -/
def kindField (k : Kind) : List Char := field "kind" (jsonString k.name)

/-- The fields of the event and the closing brace. -/
def LoggedEvent.fields : LoggedEvent → List Char
  | .connectionOpened i => kindField .connectionOpened ++ connectionFields i "\x7d".toList
  | .connectionClosed i bytesIn bytesOut durationMs =>
      kindField .connectionClosed ++ connectionFields i
        (field "bytes_in" (jsonNat bytesIn) ++ (field "bytes_out" (jsonNat bytesOut) ++
          (field "duration_ms" (jsonNat durationMs) ++ "\x7d".toList)))
  | .info message =>
      kindField .info ++ (field "message" (jsonString message) ++ "\x7d".toList)
  | .error message =>
      kindField .error ++ (field "message" (jsonString message) ++ "\x7d".toList)

def JsonLogLine.text (l : JsonLogLine) : List Char :=
  "\x7b\"ts_unix_ms\":".toList ++ (jsonNat l.tsUnixMs ++ l.event.fields)

example : (JsonLogLine.text ⟨7, .info "a\nb"⟩)
    = "\x7b\"ts_unix_ms\":7,\"kind\":\"info\",\"message\":\"a\\nb\"\x7d".toList := by decide

/-- What `serde_json::to_string(&json)` prints. -/
def JsonLogLine.json (l : JsonLogLine) : Bytes := utf8 l.text

theorem newline_not_mem_jsonNat (n : Nat) : '\n' ∉ jsonNat n := by
  intro h
  have hdigit := Nat.isDigit_of_mem_toDigits (b := 10) (by decide) (by decide) h
  exact absurd hdigit (by decide)

theorem hexDigit_ne_newline : ∀ n < 16, Noise.hexDigit n ≠ '\n' := by decide

theorem newline_not_mem_escapeChar (c : Char) : '\n' ∉ Reverse.escapeChar c := by
  unfold Reverse.escapeChar
  split_ifs with hquote hslash hb ht hn hf hr hcontrol
  case pos | pos | pos | pos | pos | pos | pos => decide
  case pos =>
    have hhi := hexDigit_ne_newline (c.toNat / 16) (by omega)
    have hlo := hexDigit_ne_newline (c.toNat % 16) (by omega)
    simp [hhi.symm, hlo.symm]
  case neg =>
    intro h
    rw [List.mem_singleton] at h
    rw [← h] at hn
    exact hn rfl

theorem newline_not_mem_jsonString (s : String) : '\n' ∉ jsonString s := by
  intro h
  rcases List.mem_cons.1 h with h | h
  · exact absurd h (by decide)
  · rcases List.mem_append.1 h with h | h
    · obtain ⟨c, -, hc⟩ := List.mem_flatMap.1 h
      exact newline_not_mem_escapeChar c hc
    · exact absurd h (by decide)

theorem newline_not_mem_field {name : String} {value : List Char} (hname : '\n' ∉ name.toList)
    (hvalue : '\n' ∉ value) : '\n' ∉ field name value := by
  have hquote : '\n' ∉ ",\"".toList := by decide
  have hcolon : '\n' ∉ "\":".toList := by decide
  simp only [field, List.mem_append]
  rintro (h | h | h | h)
  · exact hquote h
  · exact hname h
  · exact hcolon h
  · exact hvalue h

theorem newline_not_mem_connectionFields (i : ConnectionInfo) {more : List Char}
    (hmore : '\n' ∉ more) : '\n' ∉ connectionFields i more := by
  simp only [connectionFields, List.mem_append]
  rintro (h | h | h | h | h | h)
  · exact newline_not_mem_field (by decide) (newline_not_mem_jsonNat _) h
  · exact newline_not_mem_field (by decide) (newline_not_mem_jsonString _) h
  · exact newline_not_mem_field (by decide) (newline_not_mem_jsonString _) h
  · exact newline_not_mem_field (by decide) (newline_not_mem_jsonString _) h
  · exact newline_not_mem_field (by decide) (newline_not_mem_jsonString _) h
  · exact hmore h

theorem newline_not_mem_fields (e : LoggedEvent) : '\n' ∉ e.fields := by
  have hkind : ∀ k : Kind, '\n' ∉ kindField k := fun k =>
    newline_not_mem_field (by decide) (newline_not_mem_jsonString _)
  have hbrace : '\n' ∉ "\x7d".toList := by decide
  cases e with
  | connectionOpened i =>
      simp only [LoggedEvent.fields, List.mem_append]
      rintro (h | h)
      · exact hkind _ h
      · exact newline_not_mem_connectionFields i hbrace h
  | connectionClosed i bytesIn bytesOut durationMs =>
      simp only [LoggedEvent.fields, List.mem_append]
      rintro (h | h)
      · exact hkind _ h
      · refine newline_not_mem_connectionFields i ?_ h
        simp only [List.mem_append]
        rintro (h | h | h | h)
        · exact newline_not_mem_field (by decide) (newline_not_mem_jsonNat _) h
        · exact newline_not_mem_field (by decide) (newline_not_mem_jsonNat _) h
        · exact newline_not_mem_field (by decide) (newline_not_mem_jsonNat _) h
        · exact hbrace h
  | info message | error message =>
      simp only [LoggedEvent.fields, List.mem_append]
      rintro (h | h | h)
      · exact hkind _ h
      · exact newline_not_mem_field (by decide) (newline_not_mem_jsonString _) h
      · exact hbrace h

theorem newline_not_mem_front : '\n' ∉ "\x7b\"ts_unix_ms\":".toList := by decide

theorem newline_not_mem_text (l : JsonLogLine) : '\n' ∉ l.text := by
  unfold JsonLogLine.text
  rw [List.mem_append, List.mem_append]
  rintro (h | h | h)
  · exact newline_not_mem_front h
  · exact newline_not_mem_jsonNat _ h
  · exact newline_not_mem_fields _ h

theorem newline_ne_ofNat {n : Nat} (hlow : 128 ≤ n) (hhigh : n < 256) : newline ≠ UInt8.ofNat n := by
  intro h
  have hnat : 10 = n % 256 := congrArg UInt8.toNat h
  omega

/-- Only the newline has this byte in its encoding. -/
theorem eq_newline_of_mem_utf8 {c : Char} (h : newline ∈ String.utf8EncodeChar c) : c = '\n' := by
  revert h
  fun_cases String.utf8EncodeChar c with
  | case1 v hv =>
      intro h
      have hbyte : newline = UInt8.ofNat v := List.mem_singleton.1 h
      have hnat : 10 = v % 256 := congrArg UInt8.toNat hbyte
      have hval : c.toNat = 10 := by
        show v = 10
        omega
      rw [← Char.ofNat_toNat c, hval]
  | case2 v hascii hv =>
      simp only [List.mem_cons, List.not_mem_nil, or_false]
      rintro (h | h)
      · exact absurd h (newline_ne_ofNat (by omega) (by omega))
      · exact absurd h (newline_ne_ofNat (by omega) (by omega))
  | case3 v hascii htwo hv =>
      simp only [List.mem_cons, List.not_mem_nil, or_false]
      rintro (h | h | h)
      · exact absurd h (newline_ne_ofNat (by omega) (by omega))
      · exact absurd h (newline_ne_ofNat (by omega) (by omega))
      · exact absurd h (newline_ne_ofNat (by omega) (by omega))
  | case4 v hascii htwo hthree =>
      simp only [List.mem_cons, List.not_mem_nil, or_false]
      rintro (h | h | h | h)
      · exact absurd h (newline_ne_ofNat (by omega) (by omega))
      · exact absurd h (newline_ne_ofNat (by omega) (by omega))
      · exact absurd h (newline_ne_ofNat (by omega) (by omega))
      · exact absurd h (newline_ne_ofNat (by omega) (by omega))

theorem JsonLogLine.oneLine_json : OneLine JsonLogLine.json := by
  intro l h
  obtain ⟨c, hc, hbyte⟩ := List.mem_flatMap.1 h
  rw [eq_newline_of_mem_utf8 hbyte] at hc
  exact newline_not_mem_text l hc

end Stats
end Erbridge
