import Erbridge.Core.Machine
import Erbridge.Sni.Hello

/-!
# `peek_sni`

The visitor's hello is read while it comes in, and parsed when the record is complete.  A visitor can
send it in any pieces, and go on behind it; the connection can fail, end or be too slow.

* `Peek.step` — one poll of `read_record`, a move of the visitor, or the timeout.
* `parseRecord_complete` — what `parse_record` makes of a complete record, whatever follows.
* `RecordRead.step_failed` — why a poll fails.
* `Peek.peek_sni_exact` — the outcome is that of `parse_record` on all that the visitor has sent.
-/

namespace Erbridge
namespace Sni

open Erbridge.Core
open Core.Checked

/-! ## Complete records -/

/-- A header is five bytes. -/
theorem exists_header {header : Bytes} (hlen : header.length = recordHeaderLen) :
    ∃ a b c d e, header = [a, b, c, d, e] := by
  rcases parseRecord_cases header with ⟨hshort, -⟩ | ⟨a, b, c, d, e, rest, rfl⟩
  · omega
  · cases rest with
    | nil => exact ⟨a, b, c, d, e, rfl⟩
    | cons x rest => simp [recordHeaderLen] at hlen

/-- A record with its header, and what follows it. -/
theorem parseRecord_complete {header body : Bytes} {len : Nat} (hlen : header.length = recordHeaderLen)
    (hcheck : checkHeader header = some len) (hbody : body.length = len) (rest : Bytes) :
    parseRecord (header ++ body ++ rest) = parseHandshake body := by
  obtain ⟨a, b, c, d, e, rfl⟩ := exists_header hlen
  rw [List.append_assoc]
  show parseRecord (a :: b :: c :: d :: e :: (body ++ rest)) = _
  rw [parseRecord_eq, checkHeader_eq_some_iff.1 hcheck]
  show (if (body ++ rest).length < len then _ else parseHandshake ((body ++ rest).take len)) = _
  rw [if_neg (by rw [List.length_append]; omega), ← hbody, List.take_left]

/-- The record is not a hello. -/
def Refused (record : Bytes) : Prop := ∀ o, parseRecord record ≠ .ok o

/-- A header that is refused is refused whatever follows. -/
theorem refused_of_header {header : Bytes} (hlen : header.length = recordHeaderLen)
    (hcheck : checkHeader header = none) (rest : Bytes) : Refused (header ++ rest) := by
  obtain ⟨a, b, c, d, e, rfl⟩ := exists_header hlen
  intro o ho
  have ho : parseRecord (a :: b :: c :: d :: e :: rest) = .ok o := ho
  rw [parseRecord_eq, bind_eq_ok_iff] at ho
  obtain ⟨len, hlen, -⟩ := ho
  rw [checkHeader_eq_some_iff.2 hlen] at hcheck
  cases hcheck

/-- Nor is a record of which a part is missing. -/
theorem refused_of_short {record : Bytes} (hlen : record.length < recordHeaderLen) :
    Refused record := by
  intro o ho
  rw [parseRecord, if_pos hlen] at ho
  cases ho

theorem refused_of_truncated {header body : Bytes} {len : Nat}
    (hlen : header.length = recordHeaderLen) (hcheck : checkHeader header = some len)
    (hbody : body.length < len) : Refused (header ++ body) := by
  obtain ⟨a, b, c, d, e, rfl⟩ := exists_header hlen
  intro o ho
  have ho : parseRecord (a :: b :: c :: d :: e :: body) = .ok o := ho
  rw [parseRecord_eq, checkHeader_eq_some_iff.1 hcheck] at ho
  have ho : (if body.length < len then (bail .truncatedRecord : Parse (Option String))
      else parseHandshake (body.take len)) = .ok o := ho
  rw [if_pos hbody] at ho
  cases ho

theorem checkHeader_le {header : Bytes} {len : Nat} (h : checkHeader header = some len) :
    len ≤ maxRecordBody := by
  unfold checkHeader at h
  split at h
  · cases h
  · simp only at h
    split at h
    · cases h
    · rename_i hlen
      obtain rfl := Option.some.inj h
      omega

/-! ## One poll -/

namespace RecordRead

/-- Where a `read_record` is, with what its buffer tells. -/
def Fits : RecordRead → Prop
  | .header got => got.length < recordHeaderLen
  | .body front len got => front.length = recordHeaderLen ∧ checkHeader front = some len
      ∧ got.length < len
  | .done buf => ∃ front body, buf = front ++ body ∧ front.length = recordHeaderLen
      ∧ checkHeader front = some body.length
  | .failed => True

/-- It goes on. -/
def reading : RecordRead → Bool
  | .header _ | .body _ _ _ => true
  | .done _ | .failed => false

/-- What one poll leaves: more of the record, a failure of the connection, its end, or a header that is
refused. -/
inductive Polled (r : RecordRead) (wire : Wire) (a : ReadAnswer) : RecordRead → Wire → Prop
  | more {got rest : Bytes} {r' : RecordRead} (hunread : wire.unread = got ++ rest)
      (hheld : r'.held = r.held ++ got) (hfits : r'.Fits) (hlive : r' ≠ .failed) :
      Polled r wire a r' (wire.advance got.length)
  | broken (ha : a = .fail) : Polled r wire a .failed wire
  | ended (hunread : wire.unread = []) (hended : wire.ended = true) : Polled r wire a .failed wire
  | refused {got rest : Bytes} (hunread : wire.unread = got ++ rest)
      (hlen : (r.held ++ got).length = recordHeaderLen) (hcheck : checkHeader (r.held ++ got) = none) :
      Polled r wire a .failed (wire.advance got.length)

theorem polled {r : RecordRead} (hr : r.Fits) (hreading : r.reading = true) (wire : Wire)
    (a : ReadAnswer) : Polled r wire a (r.step wire a).1 (r.step wire a).2 := by
  cases r with
  | header got =>
      have hlt : got.length < recordHeaderLen := hr
      rcases wire.readExact_cases hlt a with ⟨e, heq, hwire, hcause⟩ | ⟨more, rest, hunread, hle, heq, hwire⟩
      · simp only [step, heq, hwire]
        rcases hcause with ⟨-, hunread, hended⟩ | ⟨-, ha⟩
        · exact .ended hunread hended
        · exact .broken ha
      · simp only [step, heq, hwire]
        by_cases hpart : (got ++ more).length < recordHeaderLen
        · simp only [if_pos hpart]
          exact .more hunread rfl hpart (by simp)
        · have hfull : (got ++ more).length = recordHeaderLen := by omega
          simp only [if_neg hpart, startBody]
          cases hcheck : checkHeader (got ++ more) with
          | none => exact .refused hunread hfull hcheck
          | some len =>
              refine .more hunread ?_ ⟨hfull, hcheck, checkHeader_pos hcheck⟩ (by simp)
              simp only [held, List.append_nil]
  | body front len got =>
      obtain ⟨hfront, hcheck, hlt⟩ := hr
      rcases wire.readExact_cases hlt a with ⟨e, heq, hwire, hcause⟩ | ⟨more, rest, hunread, hle, heq, hwire⟩
      · simp only [step, heq, hwire]
        rcases hcause with ⟨-, hunread, hended⟩ | ⟨-, ha⟩
        · exact .ended hunread hended
        · exact .broken ha
      · simp only [step, heq, hwire]
        by_cases hpart : (got ++ more).length < len
        · simp only [if_pos hpart]
          refine .more hunread ?_ ⟨hfront, hcheck, hpart⟩ (by simp)
          simp only [held, List.append_assoc]
        · have hfull : (got ++ more).length = len := by omega
          simp only [if_neg hpart]
          refine .more hunread ?_ ⟨front, got ++ more, rfl, hfront, ?_⟩ (by simp)
          · simp only [held, List.append_assoc]
          · rw [hfull]
            exact hcheck
  | done buf => cases hreading
  | failed => cases hreading

/-- No more is taken than a record can have. -/
theorem Fits.length_held_le {r : RecordRead} (h : r.Fits) :
    r.held.length ≤ recordHeaderLen + maxRecordBody := by
  cases r with
  | header got =>
      have hlt : got.length < recordHeaderLen := h
      show got.length ≤ _
      omega
  | body front len got =>
      obtain ⟨hfront, hcheck, hlt⟩ := h
      have hle := checkHeader_le hcheck
      show (front ++ got).length ≤ _
      rw [List.length_append]
      omega
  | done buf =>
      obtain ⟨front, body, rfl, hfront, hcheck⟩ := h
      have hle := checkHeader_le hcheck
      show (front ++ body).length ≤ _
      rw [List.length_append]
      omega
  | failed => exact Nat.zero_le _

end RecordRead

/-! ## The call -/

/-- Why `peek_sni` fails. -/
inductive PeekError
  | timedOut
  /-- `read_record` failed: the header, the body, or what the header announces. -/
  | reading
  | hello (e : Fault HelloError)

/-- What was read from the stream, and the SNI found in it. -/
structure Peeked where
  sni : Option String
  buffered : Bytes

/-- A call of `peek_sni` and the connection that it reads. -/
structure Peek where
  reader : RecordRead
  wire : Wire
  timedOut : Bool
  /-- The connection has reported an error; not part of the code's state. -/
  broken : Bool

namespace Peek

def start : Peek where
  reader := .start
  wire := .empty
  timedOut := false
  broken := false

inductive Event
  | poll (a : ReadAnswer)
  | timeout
  | sends (bytes : Bytes)
  | closes

def running (p : Peek) : Bool := !p.timedOut && p.reader.reading

def step (p : Peek) : Event → Option Peek
  | .poll a =>
      if p.running then
        some { p with
          reader := (p.reader.step p.wire a).1
          wire := (p.reader.step p.wire a).2
          broken := p.broken || a = .fail }
      else none
  | .timeout => if p.running then some { p with timedOut := true } else none
  | .sends bytes => if p.wire.ended then none else some { p with wire := p.wire.push bytes }
  | .closes => some { p with wire := { p.wire with ended := true } }

def machine : Machine Peek Event where
  step := step

/-- What the call returns, when it does. -/
def result (p : Peek) : Option (Except PeekError Peeked) :=
  if p.timedOut then some (.error .timedOut)
  else
    match p.reader with
    | .done buf =>
        match parseRecord buf with
        | .ok sni => some (.ok ⟨sni, buf⟩)
        | .error e => some (.error (.hello e))
    | .failed => some (.error .reading)
    | .header _ | .body _ _ _ => none

variable {p q : Peek}

/-- What was read is in the buffer, as long as the read has not failed; and why it has. -/
structure Inv (p : Peek) : Prop where
  fits : p.reader.Fits
  read : p.reader ≠ .failed → p.wire.read = p.reader.held
  within : p.wire.taken ≤ p.wire.carried.length
  bounded : p.wire.read.length ≤ recordHeaderLen + maxRecordBody
  failed : p.reader = .failed → p.broken = true
    ∨ (∃ header rest, p.wire.carried = header ++ rest ∧ header.length = recordHeaderLen
      ∧ checkHeader header = none)
    ∨ p.wire.ended = true ∧ Refused p.wire.carried

theorem inv_start : Inv start where
  fits := by simp [start, RecordRead.start, RecordRead.Fits, recordHeaderLen]
  read _ := rfl
  within := Nat.le_refl _
  bounded := Nat.zero_le _
  failed h := by cases h

/-- The connection ends before the record is complete. -/
theorem refused_of_ended (hi : Inv p) (hreading : p.reader.reading = true)
    (hunread : p.wire.unread = []) : Refused p.wire.carried := by
  have hread : p.wire.carried = p.reader.held := by
    have hlive : p.reader ≠ .failed := by
      intro h
      rw [h] at hreading
      cases hreading
    rw [← hi.read hlive, ← p.wire.read_append_unread, hunread, List.append_nil]
  have hfits := hi.fits
  rw [hread]
  cases hr : p.reader with
  | header got =>
      rw [hr] at hfits
      exact refused_of_short hfits
  | body front len got =>
      rw [hr] at hfits
      exact refused_of_truncated hfits.1 hfits.2.1 hfits.2.2
  | done buf =>
      rw [hr] at hreading
      cases hreading
  | failed =>
      rw [hr] at hreading
      cases hreading

theorem inv_poll (hi : Inv p) {a : ReadAnswer} (hrunning : p.running = true) :
    Inv { p with
      reader := (p.reader.step p.wire a).1
      wire := (p.reader.step p.wire a).2
      broken := p.broken || a = .fail } := by
  have hreading : p.reader.reading = true := by
    simp only [running, Bool.and_eq_true] at hrunning
    exact hrunning.2
  have hlive : p.reader ≠ .failed := by
    intro h
    rw [h] at hreading
    cases hreading
  have hpolled := RecordRead.polled hi.fits hreading p.wire a
  generalize p.reader.step p.wire a = out at hpolled
  obtain ⟨r, w⟩ := out
  simp only at hpolled ⊢
  cases hpolled with
  | @more got rest _ hunread hheld hfits hnot =>
      have hread : (p.wire.advance got.length).read = r.held := by
        rw [(Wire.read_advance hunread).1, hi.read hlive, hheld]
      refine ⟨hfits, fun _ => hread, Wire.taken_advance_le hunread hi.within, ?_, fun h => absurd h hnot⟩
      show (p.wire.advance got.length).read.length ≤ _
      rw [hread]
      exact hfits.length_held_le
  | broken ha =>
      exact ⟨trivial, fun h => absurd rfl h, hi.within, hi.bounded, fun _ => Or.inl (by simp [ha])⟩
  | ended hunread hended =>
      exact ⟨trivial, fun h => absurd rfl h, hi.within, hi.bounded,
        fun _ => Or.inr (Or.inr ⟨hended, refused_of_ended (p := p) hi hreading hunread⟩)⟩
  | @refused got rest hunread hlen hcheck =>
      have hread : (p.wire.advance got.length).read = p.reader.held ++ got := by
        rw [(Wire.read_advance hunread).1, hi.read hlive]
      refine ⟨trivial, fun h => absurd rfl h, Wire.taken_advance_le hunread hi.within, ?_, fun _ => ?_⟩
      · show (p.wire.advance got.length).read.length ≤ _
        rw [hread, hlen]
        omega
      · refine Or.inr (Or.inl ⟨_, (p.wire.advance got.length).unread, ?_, hlen, hcheck⟩)
        rw [← hread, Wire.read_append_unread]

theorem inv_step {e : Event} (hi : Inv p) (hstep : p.step e = some q) : Inv q := by
  cases e with
  | poll a =>
      simp only [step] at hstep
      split at hstep
      · rename_i hrunning
        obtain rfl := Option.some.inj hstep
        exact inv_poll hi hrunning
      · cases hstep
  | timeout =>
      simp only [step] at hstep
      split at hstep
      · obtain rfl := Option.some.inj hstep
        exact ⟨hi.fits, hi.read, hi.within, hi.bounded, hi.failed⟩
      · cases hstep
  | sends bytes =>
      simp only [step] at hstep
      split at hstep
      · cases hstep
      · rename_i hopen
        obtain rfl := Option.some.inj hstep
        have hread : (p.wire.push bytes).read = p.wire.read := Wire.read_push hi.within
        refine ⟨hi.fits, fun h => hread.trans (hi.read h), ?_, ?_, fun h => ?_⟩
        · show p.wire.taken ≤ (p.wire.carried ++ bytes).length
          rw [List.length_append]
          exact Nat.le_trans hi.within (Nat.le_add_right _ _)
        · show (p.wire.push bytes).read.length ≤ _
          rw [hread]
          exact hi.bounded
        · rcases hi.failed h with hbroken | ⟨header, rest, hcarried, hheader⟩ | ⟨hended, -⟩
          · exact Or.inl hbroken
          · refine Or.inr (Or.inl ⟨header, rest ++ bytes, ?_, hheader⟩)
            show p.wire.carried ++ bytes = _
            rw [hcarried, List.append_assoc]
          · exact absurd hended hopen
  | closes =>
      obtain rfl := Option.some.inj hstep
      exact ⟨hi.fits, hi.read, hi.within, hi.bounded,
        fun h => (hi.failed h).imp id fun h => h.imp id fun h => ⟨rfl, h.2⟩⟩

/-- A call that returns `Ok` has the whole record, and the name in it. -/
theorem done_of_result {found : Peeked} (h : p.result = some (.ok found)) :
    p.timedOut = false ∧ p.reader = .done found.buffered
      ∧ parseRecord found.buffered = .ok found.sni := by
  unfold result at h
  split at h
  · cases h
  · rename_i hrunning
    refine ⟨by simpa using hrunning, ?_⟩
    cases hr : p.reader with
    | done buf =>
        simp only [hr] at h
        cases hsni : parseRecord buf with
        | ok sni =>
            rw [hsni] at h
            obtain rfl := Except.ok.inj (Option.some.inj h)
            exact ⟨rfl, hsni⟩
        | error e =>
            rw [hsni] at h
            cases h
    | header got | body front len got | failed =>
        simp only [hr] at h
        cases h

/-- Once the call has returned, only the visitor goes on. -/
theorem result_step {e : Event} {r : Except PeekError Peeked} (hr : p.result = some r)
    (hstep : p.step e = some q) : q.result = some r := by
  have hover : p.running = false := by
    by_contra h
    simp only [Bool.not_eq_false, running, Bool.and_eq_true, Bool.not_eq_true'] at h
    obtain ⟨htimely, hreading⟩ := h
    cases hreader : p.reader with
    | done | failed =>
        rw [hreader] at hreading
        cases hreading
    | header | body =>
        simp only [result, htimely, hreader] at hr
        cases hr
  cases e with
  | poll a => simp [step, hover] at hstep
  | timeout => simp [step, hover] at hstep
  | sends bytes =>
      simp only [step] at hstep
      split at hstep
      · cases hstep
      · obtain rfl := Option.some.inj hstep
        exact hr
  | closes =>
      obtain rfl := Option.some.inj hstep
      exact hr

/-- What follows a complete record does not matter to `parse_record`. -/
theorem Inv.parse_more (hi : Inv p) {buf : Bytes} (hdone : p.reader = .done buf) (rest : Bytes) :
    parseRecord (buf ++ rest) = parseRecord buf := by
  have hfits := hi.fits
  rw [hdone] at hfits
  obtain ⟨front, body, rfl, hfront, hcheck⟩ := hfits
  have hself := parseRecord_complete hfront hcheck rfl []
  rw [List.append_nil] at hself
  rw [parseRecord_complete hfront hcheck rfl, hself]

/-- What a complete record was parsed to is what `parse_record` makes of all that was sent. -/
theorem Inv.parse_done (hi : Inv p) {buf : Bytes} (hdone : p.reader = .done buf) :
    buf = p.wire.read ∧ parseRecord p.wire.carried = parseRecord buf := by
  have hread : p.wire.read = buf := by
    have h := hi.read (by rw [hdone]; simp)
    rwa [hdone] at h
  refine ⟨hread.symm, ?_⟩
  rw [← p.wire.read_append_unread, hread]
  exact hi.parse_more hdone _

theorem inv_run {es : List Event} (hrun : machine.run start es = some p) : Inv p :=
  machine.run_invariant Inv (fun hi hstep => inv_step hi hstep) inv_start hrun

/-! ## Going on -/

/-- A record that is parsed is there with its header and all of its body. -/
theorem complete_of_ok {record : Bytes} {o : Option String} (h : parseRecord record = .ok o) :
    ∃ front body rest, record = front ++ (body ++ rest) ∧ front.length = recordHeaderLen
      ∧ checkHeader front = some body.length ∧ parseHandshake body = .ok o := by
  rcases parseRecord_cases record with ⟨-, hbail⟩ | ⟨a, b, c, d, e, rest, rfl⟩
  · rw [hbail] at h
    cases h
  · rw [parseRecord_eq, bind_eq_ok_iff] at h
    obtain ⟨len, hcheck, h⟩ := h
    split at h
    · cases h
    · have hbody : (rest.take len).length = len := List.length_take_of_le (by omega)
      refine ⟨[a, b, c, d, e], rest.take len, rest.drop len, ?_, rfl, ?_, h⟩
      · rw [List.take_append_drop]
        rfl
      · rw [hbody]
        exact checkHeader_eq_some_iff.2 hcheck

/-- A poll that is given all that it asks for. -/
theorem readExact_all {w : Wire} {got more rest : Bytes} {len : Nat} (hunread : w.unread = more ++ rest)
    (hmore : more ≠ []) (hlen : got.length + more.length = len) :
    readExact got (w.pollRead (len - got.length) (.upTo len)).1 = .got (got ++ more)
      ∧ (w.pollRead (len - got.length) (.upTo len)).2 = w.advance more.length := by
  have hroom : min (len + 1) (len - got.length) = more.length := by omega
  have hne : ¬(w.unread = [] ∧ w.ended = false) := by
    rw [hunread]
    exact fun h => hmore (List.append_eq_nil_iff.1 h.1).1
  obtain ⟨b, more, rfl⟩ := List.exists_cons_of_ne_nil hmore
  rw [Wire.pollRead, if_neg hne, hroom, hunread, List.take_left]
  exact ⟨rfl, rfl⟩

/-- With the whole record there, a poll of the body completes it. -/
theorem finish_body (hi : Inv p) {front got body rest : Bytes} {len : Nat} {o : Option String}
    (hreader : p.reader = .body front len got) (hrunning : p.timedOut = false)
    (hcarried : p.wire.carried = front ++ (body ++ rest)) (hcheck : checkHeader front = some body.length)
    (ho : parseHandshake body = .ok o) :
    ∃ q, p.step (.poll (.upTo len)) = some q ∧ q.result = some (.ok ⟨o, front ++ body⟩) := by
  have hfits := hi.fits
  rw [hreader] at hfits
  obtain ⟨hfront, hcheck', hlt⟩ := hfits
  obtain rfl : len = body.length := Option.some.inj (hcheck'.symm.trans hcheck)
  have hread : p.wire.read = front ++ got := by
    have h := hi.read (by rw [hreader]; simp)
    rwa [hreader] at h
  have hsplit : got ++ p.wire.unread = body ++ rest := by
    have h := p.wire.read_append_unread
    rw [hread, hcarried, List.append_assoc] at h
    exact List.append_cancel_left h
  obtain ⟨more, rfl⟩ : got <+: body :=
    List.prefix_of_prefix_length_le ⟨_, hsplit⟩ (List.prefix_append _ _) (Nat.le_of_lt hlt)
  rw [List.append_assoc] at hsplit
  have hunread := List.append_cancel_left hsplit
  have hmore : more ≠ [] := by
    rintro rfl
    simp at hlt
  have hlen : got.length + more.length = (got ++ more).length := List.length_append.symm
  obtain ⟨hgot, -⟩ := readExact_all hunread hmore hlen
  have hstep : p.step (.poll (.upTo (got ++ more).length)) = some _ :=
    if_pos (by rw [running, hrunning, hreader]; rfl)
  refine ⟨_, hstep, ?_⟩
  have hdone : (p.reader.step p.wire (.upTo (got ++ more).length)).1 = .done (front ++ (got ++ more)) := by
    rw [hreader]
    simp only [RecordRead.step, hgot]
    rw [if_neg (Nat.lt_irrefl _)]
  have hparsed := parseRecord_complete hfront hcheck rfl []
  rw [List.append_nil] at hparsed
  simp only [result, hrunning, hdone, hparsed, ho]
  rfl

/-- With the whole record there, two polls complete it. -/
theorem finish (hi : Inv p) {o : Option String} (hresult : p.result = none)
    (ho : parseRecord p.wire.carried = .ok o) :
    ∃ fs q, fs.length ≤ 2 ∧ (∀ f ∈ fs, ∃ n, f = .poll (.upTo n)) ∧ machine.run p fs = some q
      ∧ ∃ buf, q.result = some (.ok ⟨o, buf⟩) := by
  obtain ⟨front, body, rest, hcarried, hfront, hcheck, hbody⟩ := complete_of_ok ho
  have hrunning : p.timedOut = false := by
    by_contra h
    rw [Bool.not_eq_false] at h
    rw [result, h] at hresult
    cases hresult
  cases hreader : p.reader with
  | done buf =>
      simp only [result, hrunning, hreader, Bool.false_eq_true, if_false] at hresult
      cases hparse : parseRecord buf with
      | ok sni =>
          rw [hparse] at hresult
          cases hresult
      | error e =>
          rw [hparse] at hresult
          cases hresult
  | failed =>
      simp only [result, hrunning, hreader] at hresult
      cases hresult
  | body front' len got =>
      have hread : p.wire.read = front' ++ got := by
        have h := hi.read (by rw [hreader]; simp)
        rwa [hreader] at h
      have hfits := hi.fits
      rw [hreader] at hfits
      -- Both headers are the first five bytes.
      obtain rfl : front' = front := by
        have h := p.wire.read_append_unread
        rw [hread, hcarried, List.append_assoc] at h
        exact (List.append_inj h (hfits.1.trans hfront.symm)).1
      obtain ⟨q, hstep, hq⟩ := finish_body hi hreader hrunning hcarried hcheck hbody
      refine ⟨[.poll (.upTo len)], q, by simp, by simp, ?_, _, hq⟩
      exact machine.run_cons_iff.2 ⟨q, hstep, rfl⟩
  | header got =>
      have hread : p.wire.read = got := by
        have h := hi.read (by rw [hreader]; simp)
        rwa [hreader] at h
      have hfits := hi.fits
      rw [hreader] at hfits
      have hlt : got.length < recordHeaderLen := hfits
      have hsplit : got ++ p.wire.unread = front ++ (body ++ rest) := by
        have h := p.wire.read_append_unread
        rwa [hread, hcarried] at h
      obtain ⟨more, rfl⟩ : got <+: front :=
        List.prefix_of_prefix_length_le ⟨_, hsplit⟩ (List.prefix_append _ _) (by omega)
      rw [List.append_assoc] at hsplit
      have hunread := List.append_cancel_left hsplit
      have hmore : more ≠ [] := by
        rintro rfl
        rw [List.append_nil] at hfront
        omega
      rw [List.length_append] at hfront
      obtain ⟨hgot, hwire⟩ := readExact_all hunread hmore hfront
      have hstep : p.step (.poll (.upTo recordHeaderLen)) = some _ :=
        if_pos (by rw [running, hrunning, hreader]; rfl)
      have hpolled : (p.reader.step p.wire (.upTo recordHeaderLen)).1
          = .body (got ++ more) body.length [] := by
        rw [hreader]
        simp only [RecordRead.step, hgot]
        rw [if_neg (by rw [List.length_append]; omega), RecordRead.startBody, hcheck]
      have hleft : (p.reader.step p.wire (.upTo recordHeaderLen)).2 = p.wire.advance more.length := by
        rw [hreader]
        simp only [RecordRead.step, hgot, hwire]
        split <;> rfl
      have hcarried' : (p.reader.step p.wire (.upTo recordHeaderLen)).2.carried
          = (got ++ more) ++ (body ++ rest) := by
        rw [hleft, Wire.carried_advance, hcarried]
      obtain ⟨q, hnext, hq⟩ := finish_body (inv_step hi hstep) hpolled hrunning hcarried' hcheck hbody
      refine ⟨[.poll (.upTo recordHeaderLen), .poll (.upTo body.length)], q, by simp, by simp, ?_, _, hq⟩
      exact machine.run_cons_iff.2 ⟨_, hstep, machine.run_cons_iff.2 ⟨q, hnext, rfl⟩⟩

/-- **`peek_sni` is `parse_record` on what the visitor has sent**, however that comes in: a name it
returns is the name that `parse_record` finds in all of it, with exactly the bytes that were taken, of
which there are never more than one record has; it fails only when it is too late, when the connection
fails, or when there is no hello; and with the whole record there, two polls are enough. -/
theorem peek_sni_exact {es : List Event} {p : Peek} (hrun : machine.run start es = some p) :
    p.wire.read.length ≤ recordHeaderLen + maxRecordBody
      ∧ (∀ found, p.result = some (.ok found) →
          found.buffered = p.wire.read ∧ parseRecord p.wire.carried = .ok found.sni)
      ∧ (∀ e, p.result = some (.error e) → p.timedOut = true ∨ p.broken = true
          ∨ ∃ e', parseRecord p.wire.carried = bail e')
      ∧ ∀ o, p.result = none → parseRecord p.wire.carried = .ok o →
          ∃ fs q, fs.length ≤ 2 ∧ (∀ f ∈ fs, ∃ n, f = .poll (.upTo n)) ∧ machine.run p fs = some q
            ∧ ∃ buf, q.result = some (.ok ⟨o, buf⟩) := by
  have hi : Inv p := inv_run hrun
  refine ⟨hi.bounded, fun found hfound => ?_, fun e he => ?_, fun o => finish hi⟩
  · obtain ⟨-, hdone, hsni⟩ := done_of_result hfound
    obtain ⟨hbuf, hparse⟩ := hi.parse_done hdone
    exact ⟨hbuf, hparse.trans hsni⟩
  · have hrefused : Refused p.wire.carried → ∃ e', parseRecord p.wire.carried = bail e' :=
      fun h => (safe_parseRecord _).error_iff.2 fun ⟨o, ho⟩ => h o ho
    unfold result at he
    split at he
    · exact Or.inl ‹_›
    · refine Or.inr ?_
      cases hr : p.reader with
      | done buf =>
          obtain ⟨-, hparse⟩ := hi.parse_done hr
          simp only [hr] at he
          refine Or.inr (hrefused fun o ho => ?_)
          rw [hparse.symm.trans ho] at he
          cases he
      | failed =>
          rcases hi.failed hr with hbroken | ⟨header, rest, hcarried, hlen, hcheck⟩ | ⟨-, hrefusal⟩
          · exact Or.inl hbroken
          · rw [hcarried] at hrefused ⊢
            exact Or.inr (hrefused (refused_of_header hlen hcheck rest))
          · exact Or.inr (hrefused hrefusal)
      | header got | body front len got =>
          simp only [hr] at he
          cases he

/-- A hello without extensions. -/
def plainHello : Bytes := [0x16, 3, 1, 0, 42, 0x01, 0, 0, 38, 3, 3] ++ List.replicate 36 0

/-- It comes in three pieces, the last of which goes on behind the record. -/
def pieces : List Event :=
  [.sends (plainHello.take 3), .poll (.upTo 4), .sends ((plainHello.drop 3).take 9),
    .poll (.upTo 9), .poll .pending, .poll (.upTo 99),
    .sends (plainHello.drop 12 ++ [0x14, 3, 3]), .poll (.upTo 99)]

theorem peek_sni_exact_pieces :
    ∃ p found, machine.run start pieces = some p ∧ p.result = some (.ok found)
      ∧ found.buffered = p.wire.read ∧ parseRecord p.wire.carried = .ok found.sni := by
  have hrun : machine.run start pieces = some _ := rfl
  exact ⟨_, ⟨none, plainHello⟩, hrun, rfl, (peek_sni_exact hrun).2.1 ⟨none, plainHello⟩ rfl⟩

end Peek

end Sni
end Erbridge
