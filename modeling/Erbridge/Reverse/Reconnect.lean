import Erbridge.Config.Roles
import Erbridge.Core.Machine
import Erbridge.Core.Overflow
import Mathlib.Data.List.Induction

/-!
# The waits between the sessions of `connect`

The loop of `run_connect_with_shutdown`: run a session, then wait, for the minimum after a session that
ended cleanly and for twice the last wait, up to the maximum, after one that failed.  A session is its
outcome; the shutdown token may be cancelled during it or during the wait.

* `Loop.step` — the executable step function, with an overflow of the doubling.
* `ConnectConfig.delay` — the wait that the configuration describes: the minimum first, and doubled with
  each failure after the first.  `ConnectConfig.grown` is one doubling ahead of it.
* `Inv` — short of an overflow the waits are `grown`.
* `waits_as_configured_iff` — the runs in which they are `delay`, and nothing overflows.
-/

namespace Erbridge

namespace Config.ConnectConfig

def minBackoff (cfg : ConnectConfig) : UInt64 := max cfg.reconnectMinSecs 1

def maxBackoff (cfg : ConnectConfig) : UInt64 := max cfg.reconnectMaxSecs cfg.minBackoff

theorem one_le_minBackoff (cfg : ConnectConfig) : 1 ≤ cfg.minBackoff.toNat := by
  rw [minBackoff, Core.toNat_max]
  exact Nat.le_max_right _ _

theorem minBackoff_le_maxBackoff (cfg : ConnectConfig) :
    cfg.minBackoff.toNat ≤ cfg.maxBackoff.toNat := by
  rw [maxBackoff, Core.toNat_max]
  exact Nat.le_max_right _ _

/-- Seconds to wait after `k` failures in a row, as configured: a clean end and the first failure are
followed by the minimum. -/
def delay (cfg : ConnectConfig) (k : Nat) : Nat :=
  min cfg.maxBackoff.toNat (cfg.minBackoff.toNat * 2 ^ (k - 1))

/-- Seconds the loop waits after `k` failures in a row. -/
def grown (cfg : ConnectConfig) (k : Nat) : Nat :=
  min cfg.maxBackoff.toNat (cfg.minBackoff.toNat * 2 ^ k)

variable (cfg : ConnectConfig)

theorem grown_eq_delay_succ (k : Nat) : cfg.grown k = cfg.delay (k + 1) := rfl

@[simp] theorem delay_zero : cfg.delay 0 = cfg.minBackoff.toNat := by
  have := cfg.minBackoff_le_maxBackoff
  simp [delay, this]

/-- Retries start at the minimum. -/
@[simp] theorem delay_one : cfg.delay 1 = cfg.minBackoff.toNat := by
  have := cfg.minBackoff_le_maxBackoff
  simp [delay, this]

/-- They do not shrink during a run of failures. -/
theorem delay_mono {j k : Nat} (h : j ≤ k) : cfg.delay j ≤ cfg.delay k := by
  have hpow : 2 ^ (j - 1) ≤ 2 ^ (k - 1) := Nat.pow_le_pow_right (by omega) (by omega)
  have hmul := Nat.mul_le_mul_left cfg.minBackoff.toNat hpow
  unfold delay
  omega

/-- They stay between the minimum and the maximum. -/
theorem delay_bounds (k : Nat) :
    cfg.minBackoff.toNat ≤ cfg.delay k ∧ cfg.delay k ≤ cfg.maxBackoff.toNat := by
  constructor
  · rw [← cfg.delay_zero]
    exact cfg.delay_mono (Nat.zero_le k)
  · exact Nat.min_le_left _ _

theorem grown_succ (k : Nat) : min (cfg.grown k * 2) cfg.maxBackoff.toNat = cfg.grown (k + 1) := by
  have hpow : cfg.minBackoff.toNat * 2 ^ (k + 1) = cfg.minBackoff.toNat * 2 ^ k * 2 := by
    rw [Nat.pow_succ, Nat.mul_assoc]
  unfold grown
  omega

/-- Where the two ends meet, every wait is the minimum. -/
theorem delay_of_maxBackoff_eq (h : cfg.maxBackoff = cfg.minBackoff) (k : Nat) :
    cfg.delay k = cfg.minBackoff.toNat := by
  have hbounds := cfg.delay_bounds k
  rw [h] at hbounds
  omega

end Config.ConnectConfig

namespace Reverse
namespace Reconnect

open Config (ConnectConfig)
open Erbridge.Core (Build)

/-- What became of a session. -/
inductive Outcome
  | ended
  | failed (message : String)
deriving DecidableEq

def Outcome.isFailed : Outcome → Bool
  | .ended => false
  | .failed _ => true

/-- A line of the registry's log. -/
inductive Line
  | info (text : String)
  | error (text : String)
deriving DecidableEq

/-- Where `run_connect_with_shutdown` is. -/
inductive Pc
  | session
  | waiting (secs : UInt64)
  | returned (result : Except String Unit)
  /-- `backoff * 2` overflowed. -/
  | panicked
deriving DecidableEq

/-- The loop. -/
structure Loop where
  backoff : UInt64
  pc : Pc
  log : List Line
  /-- The sessions so far; not part of the code's state. -/
  outcomes : List Outcome
  /-- The waits so far; not part of the code's state. -/
  waits : List UInt64
  /-- A doubling overflowed; not part of the code's state. -/
  overflowed : Bool
deriving DecidableEq

namespace Loop

inductive Event
  /-- `run_one_session` returns. -/
  | session (o : Outcome)
  /-- The sleep is over. -/
  | waited
  /-- The shutdown token is cancelled. -/
  | cancel
deriving DecidableEq

def initial (cfg : ConnectConfig) : Loop where
  backoff := cfg.minBackoff
  pc :=
    if cfg.tunnel.isEmpty then
      .returned (.error "connect needs at least one [[connect.tunnel]] entry")
    else .session
  log := []
  outcomes := []
  waits := []
  overflowed := false

/-- The outcome is logged. -/
def report (s : Loop) (o : Outcome) : Loop :=
  { s with
    outcomes := s.outcomes ++ [o]
    log := s.log ++ [match o with
      | .ended => .info "connect: session ended, reconnecting"
      | .failed message => .error s!"connect: session error: {message}"] }

/-- `backoff` is set, and the sleep begins. -/
def sleep (s : Loop) (backoff : UInt64) : Loop :=
  { s with
    backoff := backoff
    pc := .waiting backoff
    log := s.log ++ [.info s!"connect: retrying in {backoff}s"]
    waits := s.waits ++ [backoff] }

@[simp] theorem sleep_backoff (s : Loop) (backoff : UInt64) : (s.sleep backoff).backoff = backoff := rfl

@[simp] theorem sleep_waits (s : Loop) (backoff : UInt64) :
    (s.sleep backoff).waits = s.waits ++ [backoff] := rfl

@[simp] theorem sleep_outcomes (s : Loop) (backoff : UInt64) :
    (s.sleep backoff).outcomes = s.outcomes := rfl

@[simp] theorem report_waits (s : Loop) (o : Outcome) : (s.report o).waits = s.waits := rfl

@[simp] theorem report_outcomes (s : Loop) (o : Outcome) :
    (s.report o).outcomes = s.outcomes ++ [o] := rfl

def step (build : Build) (cfg : ConnectConfig) (s : Loop) : Event → Option Loop
  | .session o =>
      match s.pc, o with
      | .session, .ended => some ((s.report o).sleep cfg.minBackoff)
      | .session, .failed _ =>
          let overflowed := s.overflowed || !decide (s.backoff.toNat * 2 < 2 ^ 64)
          match build.mul s.backoff 2 with
          | some doubled =>
              some { (s.report o).sleep (min doubled cfg.maxBackoff) with overflowed := overflowed }
          | none => some { s.report o with pc := .panicked, overflowed := overflowed }
      | _, _ => none
  | .waited =>
      match s.pc with
      | .waiting _ => some { s with pc := .session }
      | _ => none
  | .cancel =>
      match s.pc with
      | .session | .waiting _ => some { s with pc := .returned (.ok ()) }
      | _ => none

def machine (build : Build) (cfg : ConnectConfig) : Core.Machine Loop Event where
  step := step build cfg

/-- What each event needs and does. -/
inductive Moves (build : Build) (cfg : ConnectConfig) (s : Loop) : Event → Loop → Prop
  | ended (hpc : s.pc = .session) :
      Moves build cfg s (.session .ended) ((s.report .ended).sleep cfg.minBackoff)
  | doubled {message : String} (hpc : s.pc = .session) (hfits : s.backoff.toNat * 2 < 2 ^ 64) :
      Moves build cfg s (.session (.failed message))
        ((s.report (.failed message)).sleep (min (s.backoff * 2) cfg.maxBackoff))
  | overflows {message : String} {t : Loop} (hpc : s.pc = .session)
      (hlarge : 2 ^ 64 ≤ s.backoff.toNat * 2) (hflag : t.overflowed = true)
      (houtcomes : t.outcomes = s.outcomes ++ [.failed message]) :
      Moves build cfg s (.session (.failed message)) t
  | waited : Moves build cfg s .waited { s with pc := .session }
  | cancel : Moves build cfg s .cancel { s with pc := .returned (.ok ()) }

theorem moves_of_step {build : Build} {cfg : ConnectConfig} {s t : Loop} {e : Event}
    (hstep : s.step build cfg e = some t) : Moves build cfg s e t := by
  cases e with
  | session o =>
      simp only [step] at hstep
      split at hstep
      · cases hstep
        exact .ended ‹_›
      · rename_i message hpc
        by_cases hfits : s.backoff.toNat * 2 < 2 ^ 64
        · have hmul : build.mul s.backoff 2 = some (s.backoff * 2) := Build.mul_of_lt hfits
          rw [hmul] at hstep
          simp only [hfits, decide_true, Bool.not_true, Bool.or_false,
            Option.some.injEq] at hstep
          rw [← hstep]
          exact .doubled hpc hfits
        · have hlarge : 2 ^ 64 ≤ s.backoff.toNat * 2 := Nat.le_of_not_lt hfits
          simp only [hfits, decide_false, Bool.not_false, Bool.or_true] at hstep
          split at hstep
          · cases hstep
            exact .overflows hpc hlarge rfl rfl
          · cases hstep
            exact .overflows hpc hlarge rfl rfl
      · cases hstep
  | waited =>
      simp only [step] at hstep
      split at hstep
      · cases hstep
        exact .waited
      · cases hstep
  | cancel =>
      simp only [step] at hstep
      split at hstep
      · cases hstep
        exact .cancel
      · cases hstep
        exact .cancel
      · cases hstep

end Loop

/-! ## Failures in a row -/

/-- The failures since the start or the last clean end. -/
def failures (os : List Outcome) : Nat := (os.reverse.takeWhile Outcome.isFailed).length

@[simp] theorem failures_nil : failures [] = 0 := rfl

@[simp] theorem failures_concat_ended (os : List Outcome) : failures (os ++ [.ended]) = 0 := by
  simp [failures, Outcome.isFailed]

@[simp] theorem failures_concat_failed (os : List Outcome) (message : String) :
    failures (os ++ [.failed message]) = failures os + 1 := by
  have hfailed : (Outcome.failed message).isFailed = true := rfl
  simp [failures, List.takeWhile_cons_of_pos hfailed]

/-- A wait for each session, by the failures in a row up to it. -/
def waitsOf (wait : Nat → Nat) (os : List Outcome) : List Nat :=
  (List.range os.length).map fun n => wait (failures (os.take (n + 1)))

@[simp] theorem waitsOf_nil (wait : Nat → Nat) : waitsOf wait [] = [] := rfl

@[simp] theorem waitsOf_concat (wait : Nat → Nat) (os : List Outcome) (o : Outcome) :
    waitsOf wait (os ++ [o]) = waitsOf wait os ++ [wait (failures (os ++ [o]))] := by
  unfold waitsOf
  rw [List.length_append, List.length_singleton, List.range_succ, List.map_append,
    List.map_singleton]
  congr 1
  · apply List.map_congr_left
    intro n hn
    rw [List.take_append_of_le_length (List.mem_range.1 hn)]
  · rw [List.take_of_length_le (by simp)]

/-- Without a failure there is none in a row. -/
theorem failures_of_ended {os : List Outcome} (h : ∀ o ∈ os, o = .ended) : failures os = 0 := by
  induction os using List.reverseRecOn with
  | nil => rfl
  | append_singleton os o ih =>
      obtain rfl := h o (by simp)
      exact failures_concat_ended os

/-- The first failure is the only one in its row. -/
theorem exists_first_failure {os : List Outcome} (h : ∃ o ∈ os, o ≠ .ended) :
    ∃ n < os.length, failures (os.take (n + 1)) = 1 := by
  induction os using List.reverseRecOn with
  | nil => simp at h
  | append_singleton os o ih =>
      by_cases hearlier : ∃ o ∈ os, o ≠ .ended
      · obtain ⟨n, hn, hfirst⟩ := ih hearlier
        refine ⟨n, by simp; omega, ?_⟩
        rw [List.take_append_of_le_length hn, hfirst]
      · have hended : ∀ o ∈ os, o = .ended := by
          simpa using hearlier
        refine ⟨os.length, by simp, ?_⟩
        rw [List.take_of_length_le (by simp)]
        cases o with
        | ended =>
            obtain ⟨o', ho', hne⟩ := h
            rcases List.mem_append.1 ho' with hold | hnew
            · exact absurd (hended o' hold) hne
            · exact absurd (List.mem_singleton.1 hnew) hne
        | failed message => rw [failures_concat_failed, failures_of_ended hended]

/-- As far as waits are `wait`, equal waits are equal at the numbers of failures that occur. -/
theorem wait_eq_of_waitsOf_eq {wait wait' : Nat → Nat} {os : List Outcome}
    (h : waitsOf wait os = waitsOf wait' os) {n : Nat} (hn : n < os.length) :
    wait (failures (os.take (n + 1))) = wait' (failures (os.take (n + 1))) :=
  (List.map_inj_left.1 h) n (List.mem_range.2 hn)

/-! ## The waits of a run -/

/-- Short of an overflow, the loop waits as `grown` says. -/
structure Regular (cfg : ConnectConfig) (s : Loop) : Prop where
  backoff : s.backoff.toNat = cfg.grown (failures s.outcomes)
  waits : s.waits.map UInt64.toNat = waitsOf cfg.grown s.outcomes
  doubles : (∃ o ∈ s.outcomes, o ≠ .ended) → cfg.minBackoff.toNat < 2 ^ 63

structure Inv (cfg : ConnectConfig) (s : Loop) : Prop where
  regular : s.overflowed = false → Regular cfg s
  overflow : s.overflowed = true → 2 ^ 63 ≤ cfg.maxBackoff.toNat ∧ ∃ o ∈ s.outcomes, o ≠ .ended

variable {build : Build} {cfg : ConnectConfig} {s t : Loop}

theorem inv_initial (cfg : ConnectConfig) : Inv cfg (Loop.initial cfg) where
  regular _ :=
    { backoff := by
        show cfg.minBackoff.toNat = cfg.grown 0
        have := cfg.minBackoff_le_maxBackoff
        simp [ConnectConfig.grown, this]
      waits := rfl
      doubles := fun ⟨_, ho, _⟩ => nomatch ho }
  overflow h := nomatch h

theorem Regular.ended (h : Regular cfg s) :
    Regular cfg ((s.report .ended).sleep cfg.minBackoff) where
  backoff := by
    have := cfg.minBackoff_le_maxBackoff
    rw [Loop.sleep_backoff, Loop.sleep_outcomes, Loop.report_outcomes, failures_concat_ended]
    simp [ConnectConfig.grown, this]
  waits := by
    have := cfg.minBackoff_le_maxBackoff
    rw [Loop.sleep_waits, Loop.sleep_outcomes, Loop.report_outcomes, Loop.report_waits, waitsOf_concat,
      failures_concat_ended, List.map_append, h.waits]
    simp [ConnectConfig.grown, this]
  doubles := by
    rintro ⟨o, ho, hne⟩
    rcases List.mem_append.1 ho with hold | hnew
    · exact h.doubles ⟨o, hold, hne⟩
    · exact absurd (List.mem_singleton.1 hnew) hne

/-- The last wait is at least the minimum. -/
theorem Regular.min_le (h : Regular cfg s) : cfg.minBackoff.toNat ≤ s.backoff.toNat := by
  rw [h.backoff, cfg.grown_eq_delay_succ]
  exact (cfg.delay_bounds _).1

theorem Regular.doubled (h : Regular cfg s) (hfits : s.backoff.toNat * 2 < 2 ^ 64)
    (message : String) :
    Regular cfg ((s.report (.failed message)).sleep (min (s.backoff * 2) cfg.maxBackoff)) := by
  have hexact : (s.backoff * 2).toNat = s.backoff.toNat * 2 := Core.toNat_mul_of_lt hfits
  have hnext : (min (s.backoff * 2) cfg.maxBackoff).toNat = cfg.grown (failures s.outcomes + 1) := by
    rw [Core.toNat_min, hexact, h.backoff, cfg.grown_succ]
  constructor
  · rw [Loop.sleep_backoff, Loop.sleep_outcomes, Loop.report_outcomes, hnext, failures_concat_failed]
  · rw [Loop.sleep_waits, Loop.sleep_outcomes, Loop.report_outcomes, Loop.report_waits, List.map_append,
      h.waits, waitsOf_concat, failures_concat_failed, List.map_singleton, hnext]
  · intro _
    have := h.min_le
    omega

theorem inv_step {e : Loop.Event} (hi : Inv cfg s) (hstep : s.step build cfg e = some t) :
    Inv cfg t := by
  cases Loop.moves_of_step hstep with
  | ended hpc =>
      constructor
      · intro hflag
        exact (hi.regular hflag).ended
      · intro hflag
        obtain ⟨hlarge, o, ho, hne⟩ := hi.overflow hflag
        exact ⟨hlarge, o, List.mem_append_left _ ho, hne⟩
  | @doubled message hpc hfits =>
      constructor
      · intro hflag
        exact (hi.regular hflag).doubled hfits message
      · intro hflag
        obtain ⟨hlarge, o, ho, hne⟩ := hi.overflow hflag
        exact ⟨hlarge, o, List.mem_append_left _ ho, hne⟩
  | @overflows message _ hpc hlarge hflag houtcomes =>
      constructor
      · intro hno
        rw [hflag] at hno
        cases hno
      · intro _
        have hmem : Outcome.failed message ∈ t.outcomes := by simp [houtcomes]
        refine ⟨?_, _, hmem, by simp⟩
        cases hbefore : s.overflowed with
        | true => exact (hi.overflow hbefore).1
        | false =>
            -- the last wait is at most the maximum
            have hle := (cfg.delay_bounds (failures s.outcomes + 1)).2
            rw [← cfg.grown_eq_delay_succ, ← (hi.regular hbefore).backoff] at hle
            omega
  | waited => exact ⟨fun hflag => ⟨(hi.regular hflag).backoff, (hi.regular hflag).waits,
      (hi.regular hflag).doubles⟩, hi.overflow⟩
  | cancel => exact ⟨fun hflag => ⟨(hi.regular hflag).backoff, (hi.regular hflag).waits,
      (hi.regular hflag).doubles⟩, hi.overflow⟩

theorem inv_run {es : List Loop.Event}
    (hrun : (Loop.machine build cfg).run (Loop.initial cfg) es = some s) : Inv cfg s :=
  (Loop.machine build cfg).run_invariant (Inv cfg) inv_step (inv_initial cfg) hrun

/-- **What the loop waits** for a maximum below half the range: in every run each wait is one doubling
ahead of what is configured. -/
theorem waits_grown (hsmall : cfg.maxBackoff.toNat < 2 ^ 63) {es : List Loop.Event}
    (hrun : (Loop.machine build cfg).run (Loop.initial cfg) es = some s) :
    s.overflowed = false ∧ s.waits.map UInt64.toNat = waitsOf cfg.grown s.outcomes := by
  have hi := inv_run hrun
  have hflag : s.overflowed = false := by
    by_contra hflag
    have hlarge := (hi.overflow (by simpa using hflag)).1
    omega
  exact ⟨hflag, (hi.regular hflag).waits⟩

/-- The waits are those of the configuration, and nothing has overflowed. -/
def AsConfigured (cfg : ConnectConfig) (s : Loop) : Prop :=
  s.overflowed = false ∧ s.waits.map UInt64.toNat = waitsOf cfg.delay s.outcomes

/-- **When the waits are as configured**: in the runs without a failed session, and for configurations
whose maximum is the minimum, as long as twice the minimum is in range. -/
theorem waits_as_configured_iff (build : Build) (cfg : ConnectConfig) (es : List Loop.Event)
    (s : Loop) (hrun : (Loop.machine build cfg).run (Loop.initial cfg) es = some s) :
    AsConfigured cfg s ↔
      (∀ o ∈ s.outcomes, o = .ended) ∨
        cfg.reconnectMaxSecs.toNat ≤ max cfg.reconnectMinSecs.toNat 1 ∧
          max cfg.reconnectMinSecs.toNat 1 < 2 ^ 63 := by
  have hi := inv_run hrun
  have hmin : max cfg.reconnectMinSecs.toNat 1 = cfg.minBackoff.toNat :=
    (Core.toNat_max cfg.reconnectMinSecs 1).symm
  have hmax : cfg.reconnectMaxSecs.toNat ≤ cfg.minBackoff.toNat ↔
      cfg.maxBackoff.toNat = cfg.minBackoff.toNat := by
    rw [ConnectConfig.maxBackoff, Core.toNat_max]
    omega
  rw [hmin, hmax]
  constructor
  · rintro ⟨hflag, hwaits⟩
    by_cases hended : ∀ o ∈ s.outcomes, o = .ended
    · exact Or.inl hended
    · right
      have hfailed : ∃ o ∈ s.outcomes, o ≠ .ended := by
        simpa using hended
      refine ⟨?_, (hi.regular hflag).doubles hfailed⟩
      -- the first failure is followed by twice the minimum
      obtain ⟨n, hn, hfirst⟩ := exists_first_failure hfailed
      have hsame := wait_eq_of_waitsOf_eq ((hi.regular hflag).waits.symm.trans hwaits) hn
      rw [hfirst, ConnectConfig.delay_one] at hsame
      have hone := cfg.one_le_minBackoff
      unfold ConnectConfig.grown at hsame
      omega
  · intro hcond
    have hflag : s.overflowed = false := by
      by_contra hflag
      obtain ⟨hlarge, o, ho, hne⟩ := hi.overflow (by simpa using hflag)
      rcases hcond with hended | ⟨hmeet, hsmall⟩
      · exact hne (hended o ho)
      · omega
    refine ⟨hflag, ?_⟩
    rw [(hi.regular hflag).waits]
    apply List.map_congr_left
    intro n hn
    rcases hcond with hended | ⟨hmeet, -⟩
    · have hnone : failures (s.outcomes.take (n + 1)) = 0 :=
        failures_of_ended fun o ho => hended o (List.mem_of_mem_take ho)
      rw [hnone, cfg.grown_eq_delay_succ, ConnectConfig.delay_one, ConnectConfig.delay_zero]
    · have heq : cfg.maxBackoff = cfg.minBackoff := UInt64.toNat_inj.1 hmeet
      rw [cfg.grown_eq_delay_succ, cfg.delay_of_maxBackoff_eq heq, cfg.delay_of_maxBackoff_eq heq]

/-- A configuration with the default intervals. -/
def defaultConfig : ConnectConfig where
  tunnel := [⟨"web", "127.0.0.1:80"⟩]
  reconnectMinSecs := Config.defaultReconnectMinSecs
  reconnectMaxSecs := Config.defaultReconnectMaxSecs

def firstFailure : List Loop.Event := [.session (.failed "connecting to server (A)")]

/-- The condition holds of a run that fails once with the two intervals set to 5. -/
theorem waits_as_configured_iff_fixed :
    AsConfigured ⟨[⟨"web", "127.0.0.1:80"⟩], 5, 5⟩
        ⟨5, .waiting 5, [.error "connect: session error: connecting to server (A)",
          .info "connect: retrying in 5s"], [.failed "connecting to server (A)"], [5], false⟩ ↔
      (∀ o ∈ [Outcome.failed "connecting to server (A)"], o = .ended) ∨
        (5 : UInt64).toNat ≤ max (5 : UInt64).toNat 1 ∧ max (5 : UInt64).toNat 1 < 2 ^ 63 :=
  waits_as_configured_iff .release ⟨[⟨"web", "127.0.0.1:80"⟩], 5, 5⟩ firstFailure _ (by decide +kernel)

/-- With the default intervals the first retry comes after two seconds. -/
theorem first_retry_doubled :
    ¬∀ build cfg es s, (Loop.machine build cfg).run (Loop.initial cfg) es = some s →
      AsConfigured cfg s := by
  intro h
  have hrun : ((Loop.machine .release defaultConfig).run (Loop.initial defaultConfig)
      firstFailure).map (fun s => (s.waits, s.outcomes)) =
        some ([2], [.failed "connecting to server (A)"]) := by
    decide +kernel
  obtain ⟨s, hs, hend⟩ := Option.map_eq_some_iff.1 hrun
  obtain ⟨hwaits, houtcomes⟩ := Prod.mk.inj hend
  have hconfigured := (h _ _ _ s hs).2
  rw [hwaits, houtcomes] at hconfigured
  exact absurd hconfigured (by decide +kernel)

end Reconnect
end Reverse
end Erbridge
