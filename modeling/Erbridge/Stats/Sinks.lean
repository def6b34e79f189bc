import Erbridge.Core.Machine
import Erbridge.Core.Tagged
import Erbridge.Stats.LogFile
import Mathlib.Data.List.Infix
import Mathlib.Logic.Function.Basic

/-!
# The three sinks of an event

The model of `push_event` of `stats.rs` by any number of tasks at a time.  A call takes three locks one
after the other: that of the ring of recent lines, that of the broadcast channel and that of the log
file; between two of them other tasks may push events of their own.  What becomes of an event in the
channel, where a subscriber that lags behind loses it, is not part of this.

* `Sinks.step` — the steps of the calls in any order, and the opening of a log file.
* `Sinks.Inv` — what each task has got through to each of the three.
* `events_reach_sinks` — a task's events are put into the ring, sent into the channel and got to the end
  of the call in one order, and are the same ones once no call is in progress; the ring keeps the last
  500 lines; and as long as no write fails, a log file has a line for each call that has got to its end
  since it was opened.
-/

namespace Erbridge
namespace Stats

open Erbridge.Core

/-- `MAX_LOG_LINES`. -/
def maxLogLines : Nat := 500

/-- Where a task is in `push_event`. -/
inductive Pushing
  | idle
  /-- The line is formatted. -/
  | entered (e : LoggedEvent)
  /-- The line is in the ring. -/
  | logged (e : LoggedEvent)
  /-- The event was sent into the channel. -/
  | sent (e : LoggedEvent)
deriving DecidableEq

/-- The sinks of a registry and its callers. -/
structure Sinks where
  /-- `log`, the recent lines. -/
  log : List String
  /-- `log_file`: what the file holds. -/
  file : Option Bytes
  tasks : Nat → Pushing
  /-- Each event with the task that pushed it, in the order of the ring; history. -/
  ring : List (Nat × LoggedEvent)
  /-- What the broadcast channel was sent; history. -/
  events : List (Nat × LoggedEvent)
  /-- The calls of `push_event` that got to the end, and when, whether there was a log file or not;
  history. -/
  done : List (Nat × JsonLogLine)
  /-- How much of that was there when the log file was opened, and what the file held then; history. -/
  opened : Nat × Bytes

namespace Sinks

/-- `Registry::new`. -/
def initial : Sinks where
  log := []
  file := none
  tasks := fun _ => .idle
  ring := []
  events := []
  done := []
  opened := (0, [])

inductive Event
  /-- Task `i` calls `push_event(e)`. -/
  | push (i : Nat) (e : LoggedEvent)
  /-- It has the lock of the ring. -/
  | log (i : Nat)
  /-- `events.send`. -/
  | send (i : Nat)
  /-- It has the lock of the log file; `cut` says where `write_all` fails, if it does. -/
  | write (i tsUnixMs : Nat) (cut : Option Nat)
  /-- `set_log_file`, on a file that holds `old`. -/
  | setLogFile (old : Bytes)

/-- `pop_front` if the ring is full, then `push_back`. -/
def pushLine (log : List String) (line : String) : List String :=
  (if maxLogLines ≤ log.length then log.drop 1 else log) ++ [line]

/-- What a write appends to the file: all of the text or a part of it. -/
def appended (text : Bytes) : Option Nat → Bytes
  | none => text
  | some n => text.take n

def setTask (s : Sinks) (i : Nat) (k : Pushing) : Sinks :=
  { s with tasks := Function.update s.tasks i k }

section

variable (print : JsonLogLine → Bytes)

/-- `print` is `serde_json::to_string`, which does not fail for such a line. -/
def step (s : Sinks) : Event → Option Sinks
  | .push i e =>
      match s.tasks i with
      | .idle => some (s.setTask i (.entered e))
      | _ => none
  | .log i =>
      match s.tasks i with
      | .entered e =>
          some { s.setTask i (.logged e) with
            log := pushLine s.log e.display
            ring := s.ring ++ [(i, e)] }
      | _ => none
  | .send i =>
      match s.tasks i with
      | .logged e => some { s.setTask i (.sent e) with events := s.events ++ [(i, e)] }
      | _ => none
  | .write i tsUnixMs cut =>
      match s.tasks i with
      | .sent e =>
          some { s.setTask i .idle with
            file := s.file.map fun bytes => bytes ++ appended (print ⟨tsUnixMs, e⟩ ++ [newline]) cut
            done := s.done ++ [(i, ⟨tsUnixMs, e⟩)] }
      | _ => none
  | .setLogFile old => some { s with file := some old, opened := (s.done.length, old) }

def machine : Machine Sinks Event where
  step := step print

/-- What each event needs and does. -/
inductive Moves (s : Sinks) : Event → Sinks → Prop
  | push {i : Nat} {e : LoggedEvent} (hpc : s.tasks i = .idle) :
      Moves s (.push i e) (s.setTask i (.entered e))
  | log {i : Nat} {e : LoggedEvent} (hpc : s.tasks i = .entered e) :
      Moves s (.log i)
        { s.setTask i (.logged e) with
          log := pushLine s.log e.display
          ring := s.ring ++ [(i, e)] }
  | send {i : Nat} {e : LoggedEvent} (hpc : s.tasks i = .logged e) :
      Moves s (.send i) { s.setTask i (.sent e) with events := s.events ++ [(i, e)] }
  | write {i tsUnixMs : Nat} {cut : Option Nat} {e : LoggedEvent} (hpc : s.tasks i = .sent e) :
      Moves s (.write i tsUnixMs cut)
        { s.setTask i .idle with
          file := s.file.map fun bytes => bytes ++ appended (print ⟨tsUnixMs, e⟩ ++ [newline]) cut
          done := s.done ++ [(i, ⟨tsUnixMs, e⟩)] }
  | setLogFile {old : Bytes} :
      Moves s (.setLogFile old) { s with file := some old, opened := (s.done.length, old) }

end

variable {print : JsonLogLine → Bytes}

theorem moves_of_step {s s' : Sinks} {e : Event} (hstep : s.step print e = some s') :
    Moves print s e s' := by
  cases e with
  | push i e =>
      simp only [step] at hstep
      split at hstep
      · cases hstep
        exact .push ‹_›
      · cases hstep
  | log i =>
      simp only [step] at hstep
      split at hstep
      · cases hstep
        exact .log ‹_›
      · cases hstep
  | send i =>
      simp only [step] at hstep
      split at hstep
      · cases hstep
        exact .send ‹_›
      · cases hstep
  | write i tsUnixMs cut =>
      simp only [step] at hstep
      split at hstep
      · cases hstep
        exact .write ‹_›
      · cases hstep
  | setLogFile old =>
      cases hstep
      exact .setLogFile

/-! ## What each task has got through -/

/-- The events of the calls that got to the end. -/
def finished (s : Sinks) : List (Nat × LoggedEvent) := s.done.map fun x => (x.1, x.2.event)

/-- What a task's own events in the ring, in the channel and at the end have to do with each other. -/
def Own (ring events finished : List LoggedEvent) : Pushing → Prop
  | .idle | .entered _ => ring = events ∧ events = finished
  | .logged e => ring = events ++ [e] ∧ events = finished
  | .sent e => ring = events ∧ events = finished ++ [e]

structure Inv (s : Sinks) : Prop where
  own : ∀ i, Own (ownOf i s.ring) (ownOf i s.events) (ownOf i s.finished) (s.tasks i)
  recent : s.log = (s.ring.map fun x => x.2.display).drop (s.ring.length - maxLogLines)
  opened_le : s.opened.1 ≤ s.done.length

theorem inv_initial : Inv initial where
  own _ := ⟨rfl, rfl⟩
  recent := rfl
  opened_le := Nat.le_refl 0

/-- The ring holds the last lines. -/
theorem pushLine_recent (lines : List String) (line : String) :
    pushLine (lines.drop (lines.length - maxLogLines)) line
      = (lines ++ [line]).drop ((lines ++ [line]).length - maxLogLines) := by
  have hmax : maxLogLines = 500 := rfl
  unfold pushLine
  rw [List.length_drop, List.length_append, List.length_singleton]
  by_cases hfull : maxLogLines ≤ lines.length
  · have hlen : lines.length - (lines.length - maxLogLines) = maxLogLines := by omega
    have hnext : lines.length + 1 - maxLogLines = lines.length - maxLogLines + 1 := by omega
    rw [hlen, if_pos (Nat.le_refl _), List.drop_drop, hnext,
      List.drop_append_of_le_length (by omega)]
  · have hzero : lines.length - maxLogLines = 0 := by omega
    have hnext : lines.length + 1 - maxLogLines = 0 := by omega
    rw [hzero, hnext, Nat.sub_zero, if_neg hfull, List.drop_zero, List.drop_zero]

/-- A step of one task leaves the others what they had. -/
theorem own_update {s s' : Sinks} (hi : Inv s) {i : Nat} {k : Pushing}
    (htasks : s'.tasks = Function.update s.tasks i k)
    (hself : Own (ownOf i s'.ring) (ownOf i s'.events) (ownOf i s'.finished) k)
    (hother : ∀ j, j ≠ i → ownOf j s'.ring = ownOf j s.ring ∧ ownOf j s'.events = ownOf j s.events
      ∧ ownOf j s'.finished = ownOf j s.finished) (j : Nat) :
    Own (ownOf j s'.ring) (ownOf j s'.events) (ownOf j s'.finished) (s'.tasks j) := by
  by_cases hj : j = i
  · subst hj
    rw [htasks, Function.update_self]
    exact hself
  · obtain ⟨hring, hevents, hfinished⟩ := hother j hj
    rw [htasks, Function.update_of_ne hj, hring, hevents, hfinished]
    exact hi.own j

theorem inv_step {s s' : Sinks} {e : Event} (hi : Inv s) (hstep : s.step print e = some s') : Inv s' := by
  cases moves_of_step hstep with
  | @push i e hpc =>
      have hown := hi.own i
      rw [hpc] at hown
      exact ⟨own_update hi rfl hown fun j _ => ⟨rfl, rfl, rfl⟩, hi.recent, hi.opened_le⟩
  | @log i e hpc =>
      have hown := hi.own i
      rw [hpc] at hown
      refine ⟨own_update hi rfl ?_ fun j hj => ⟨?_, rfl, rfl⟩, ?_, hi.opened_le⟩
      · refine ⟨?_, hown.2⟩
        show ownOf i (s.ring ++ [(i, e)]) = _
        rw [ownOf_concat_self, hown.1]
        rfl
      · exact ownOf_concat_other (Ne.symm hj) s.ring e
      · have hlines := pushLine_recent (s.ring.map fun x => x.2.display) e.display
        rw [List.length_map, ← hi.recent] at hlines
        show pushLine s.log e.display = _
        rw [hlines]
        simp
  | @send i e hpc =>
      have hown := hi.own i
      rw [hpc] at hown
      refine ⟨own_update hi rfl ?_ fun j hj => ⟨rfl, ?_, rfl⟩, hi.recent, hi.opened_le⟩
      · have hevents : ownOf i (s.events ++ [(i, e)]) = ownOf i s.events ++ [e] :=
          ownOf_concat_self i s.events e
        refine ⟨hown.1.trans hevents.symm, hevents.trans ?_⟩
        rw [hown.2]
        rfl
      · exact ownOf_concat_other (Ne.symm hj) s.events e
  | @write i tsUnixMs cut e hpc =>
      have hown := hi.own i
      rw [hpc] at hown
      have hfinished : (s.done ++ [(i, JsonLogLine.mk tsUnixMs e)]).map (fun x => (x.1, x.2.event))
          = s.finished ++ [(i, e)] := List.map_append
      refine ⟨own_update hi rfl ?_ fun j hj => ⟨rfl, rfl, ?_⟩, hi.recent, ?_⟩
      · refine ⟨hown.1, hown.2.trans ?_⟩
        show _ = ownOf i ((s.done ++ [(i, JsonLogLine.mk tsUnixMs e)]).map _)
        rw [hfinished, ownOf_concat_self]
      · show ownOf j ((s.done ++ [(i, JsonLogLine.mk tsUnixMs e)]).map _) = _
        rw [hfinished, ownOf_concat_other (Ne.symm hj)]
      · show s.opened.1 ≤ (s.done ++ [(i, JsonLogLine.mk tsUnixMs e)]).length
        rw [List.length_append]
        exact Nat.le_add_right_of_le hi.opened_le
  | setLogFile => exact ⟨hi.own, hi.recent, Nat.le_refl _⟩

theorem inv_run {es : List Event} {s : Sinks} (hrun : (machine print).run initial es = some s) : Inv s :=
  (machine print).run_invariant Inv inv_step inv_initial hrun

/-! ## The log file -/

/-- No write to the log file fails. -/
def Whole (_ : Sinks) : Event → Prop
  | .write _ _ cut => cut = none
  | _ => True

/-- The file holds what was there when it was opened, and a line for each call since. -/
def FileOk (print : JsonLogLine → Bytes) (s : Sinks) : Prop :=
  ∀ bytes, s.file = some bytes →
    bytes = s.opened.2 ++ logFile print ((s.done.drop s.opened.1).map Prod.snd)

theorem fileOk_step {s s' : Sinks} {e : Event} (hi : Inv s) (hf : FileOk print s) (hwhole : Whole s e)
    (hstep : s.step print e = some s') : FileOk print s' := by
  cases moves_of_step hstep with
  | @write i tsUnixMs cut e hpc =>
      obtain rfl : cut = none := hwhole
      intro bytes hbytes
      obtain ⟨old, hold, rfl⟩ := Option.map_eq_some_iff.1 hbytes
      show old ++ (print _ ++ [newline]) = s.opened.2 ++ logFile print
        (((s.done ++ [(i, JsonLogLine.mk tsUnixMs e)]).drop s.opened.1).map Prod.snd)
      rw [List.drop_append_of_le_length hi.opened_le, List.map_append, List.map_singleton,
        logFile_concat, hf old hold, List.append_assoc]
  | @setLogFile old =>
      intro bytes hbytes
      obtain rfl : old = bytes := Option.some.inj hbytes
      show old = old ++ logFile print ((s.done.drop s.done.length).map Prod.snd)
      rw [List.drop_length]
      exact (List.append_nil old).symm
  | _ => exact hf

theorem fileOk_run {es : List Event} {s : Sinks} (hmeets : (machine print).Meets Whole initial es)
    (hrun : (machine print).run initial es = some s) : FileOk print s := by
  have hboth : Inv s ∧ FileOk print s := by
    refine (machine print).run_invariant_of_meets (fun s => Inv s ∧ FileOk print s) ?_
      ⟨inv_initial, fun bytes hbytes => by cases hbytes⟩ hmeets hrun
    rintro s e t ⟨hi, hf⟩ hwhole hstep
    exact ⟨inv_step hi hstep, fileOk_step hi hf hwhole hstep⟩
  exact hboth.2

/-! ## What becomes of the events -/

/-- What becomes of the events that tasks push. -/
structure Told (s : Sinks) : Prop where
  /-- `recent_log` is the last lines of the ring. -/
  recent : s.log = (s.ring.map fun x => x.2.display).drop (s.ring.length - maxLogLines)
  /-- A task's events are sent into the channel in the order of the ring. -/
  sent_in_order : ∀ i, ownOf i s.events <+: ownOf i s.ring
  /-- Their calls get to the end in that order. -/
  finished_in_order : ∀ i, ownOf i s.finished <+: ownOf i s.events
  /-- When no call is in progress, each event was sent once and has got to the end once. -/
  settled : (∀ i, s.tasks i = .idle) → s.events.Perm s.ring ∧ s.finished.Perm s.events

theorem Inv.told {s : Sinks} (hi : Inv s) : Told s where
  recent := hi.recent
  sent_in_order i := by
    have hown := hi.own i
    cases hpc : s.tasks i with
    | idle | entered e | sent e =>
        rw [hpc] at hown
        rw [hown.1]
    | logged e =>
        rw [hpc] at hown
        rw [hown.1]
        exact List.prefix_append _ _
  finished_in_order i := by
    have hown := hi.own i
    cases hpc : s.tasks i with
    | idle | entered e | logged e =>
        rw [hpc] at hown
        rw [hown.2]
    | sent e =>
        rw [hpc] at hown
        rw [hown.2]
        exact List.prefix_append _ _
  settled hidle := by
    have hown : ∀ i, ownOf i s.ring = ownOf i s.events ∧ ownOf i s.events = ownOf i s.finished := by
      intro i
      have h := hi.own i
      rwa [hidle i] at h
    exact ⟨perm_of_forall_ownOf_eq fun i => (hown i).1.symm,
      perm_of_forall_ownOf_eq fun i => (hown i).2.symm⟩

/-- **No call of `push_event` loses its event.**  However the calls interleave, each task's events go
into the ring, are sent into the channel and get to the end of the call in the task's order, none left
out and none twice; the ring keeps the last lines; and where no write fails, the log file is what it was
when it was opened and then, cut at the newlines, what is printed for each call that has got to its end
since. -/
theorem events_reach_sinks (print : JsonLogLine → Bytes) (hline : OneLine print) (es : List Event)
    (s : Sinks) (hrun : (machine print).run initial es = some s) :
    Told s ∧ ((machine print).Meets Whole initial es → ∀ bytes, s.file = some bytes →
      ∃ new, bytes = s.opened.2 ++ new ∧ new.splitOn newline =
        (s.done.drop s.opened.1).map (fun x => print x.2) ++ [[]]) := by
  refine ⟨(inv_run hrun).told, fun hmeets bytes hbytes => ?_⟩
  refine ⟨_, fileOk_run hmeets hrun bytes hbytes, ?_⟩
  rw [splitOn_logFile hline, List.map_map]
  rfl

/-- Two tasks push an event each, and overtake each other between the locks. -/
def sampleEvents : List Event :=
  [.setLogFile [], .push 0 (.info "a"), .push 1 (.error "b"), .log 0, .log 1, .send 1, .send 0,
    .write 1 7 none, .write 0 8 none]

theorem events_reach_sinks_sample :
    ∃ s bytes, (machine JsonLogLine.json).run initial sampleEvents = some s
      ∧ s.log = ["[info] a", "[error] b"] ∧ Told s ∧ s.file = some bytes ∧ bytes.splitOn newline =
        [JsonLogLine.json ⟨7, .error "b"⟩, JsonLogLine.json ⟨8, .info "a"⟩, []] := by
  have hend : ((machine JsonLogLine.json).run initial sampleEvents).map
      (fun s => (s.log, s.opened, s.done, s.file.isSome))
        = some (["[info] a", "[error] b"], (0, []), [(1, ⟨7, .error "b"⟩), (0, ⟨8, .info "a"⟩)], true) :=
    rfl
  obtain ⟨s, hrun, hfields⟩ := Option.map_eq_some_iff.1 hend
  simp only [Prod.mk.injEq] at hfields
  obtain ⟨hlog, hopened, hdone, hfile⟩ := hfields
  obtain ⟨htold, hread⟩ := events_reach_sinks JsonLogLine.json JsonLogLine.oneLine_json sampleEvents s hrun
  have hwhole : (machine JsonLogLine.json).Meets Whole initial sampleEvents := by
    refine (machine JsonLogLine.json).meets_of_forall_mem fun e he s => ?_
    simp only [sampleEvents, List.mem_cons, List.not_mem_nil, or_false] at he
    rcases he with rfl | rfl | rfl | rfl | rfl | rfl | rfl | rfl | rfl <;> trivial
  obtain ⟨bytes, hbytes⟩ := Option.isSome_iff_exists.1 hfile
  obtain ⟨new, hnew, hlines⟩ := hread hwhole bytes hbytes
  rw [hopened, List.nil_append] at hnew
  rw [hopened, hdone] at hlines
  exact ⟨s, bytes, hrun, hlog, htold, hbytes, hnew ▸ hlines⟩

end Sinks

end Stats
end Erbridge
