import Erbridge.Core.Progress
import Erbridge.Reverse.Faithful

/-!
# What was sent can still be delivered

Safety says what a relayed connection never does; here is what it can always still do.  As long as
neither end has given up and no copy loop has failed, some further polls of the two ends, to which the
streams answer with what they have, deliver everything that the visitor and the target have sent, and
pass on that they have closed.

* `Open` — what is still open, and which loops were started.
* `toDo` — how many polls are left at most.
* `progress` — one more poll.
* `relay_delivers` — all of them.
-/

namespace Erbridge
namespace Reverse
namespace Relay

open Erbridge.Core
open Proxy (Pump bufSize)

variable {name : Bytes} {resolve : Bytes → Bool} {s t : Relay}

/-! ## What is still open -/

/-- The end at which the loop runs is there. -/
def Present (s : Relay) : Loop → Prop
  | .toB | .fromB => s.front ≠ .dropped
  | .toTarget | .toA => s.inbound ≠ .dropped

/-- A loop shuts down what it writes to, and nobody else does; and which loops were started. -/
structure Open (name : Bytes) (s : Relay) : Prop where
  ended : ∀ l, s.Present l → (s.wire l.dst).ended = true → s.pump l = some .done
  opening : s.front = .opening ∨ s.front = .relaying → s.pump .toB ≠ none
  relaying : s.front = .relaying → s.pump .fromB ≠ none
  named : s.pump .toB ≠ none → frame name <+: (s.wire .up).carried
  piping : s.inbound = .piping → s.pump .toTarget ≠ none ∧ s.pump .toA ≠ none ∧ s.dialed = true
    ∧ [1] <+: (s.wire .down).carried

/-- A loop that was not started has not shut anything down. -/
theorem Open.live_of_none (ho : Open name s) {l : Loop} (hpresent : s.Present l)
    (hpump : s.pump l = none) : (s.wire l.dst).ended = false := by
  cases hended : (s.wire l.dst).ended with
  | false => rfl
  | true =>
      have hdone := ho.ended l hpresent hended
      rw [hpump] at hdone
      cases hdone

theorem Open.live_of_ne_done (ho : Open name s) {l : Loop} {p : Pump} (hpresent : s.Present l)
    (hpump : s.pump l = some p) (hp : p ≠ .done) : (s.wire l.dst).ended = false := by
  cases hended : (s.wire l.dst).ended with
  | false => rfl
  | true =>
      have hdone := ho.ended l hpresent hended
      rw [hpump] at hdone
      exact absurd (Option.some.inj hdone) hp

/-- Something is read from a wire or written into it. -/
theorem Open.setWire (ho : Open name s) {k : Link} {w : Wire}
    (hended : ∀ l : Loop, l.dst = k → w.ended = (s.wire k).ended)
    (hcarried : (s.wire k).carried <+: w.carried) : Open name (s.setWire k w) := by
  have hgrown : ∀ j, (s.wire j).carried <+: ((s.setWire k w).wire j).carried := by
    intro j
    by_cases hj : j = k
    · subst hj
      simpa [Relay.setWire] using hcarried
    · simp [Relay.setWire, hj]
  refine ⟨fun l hpresent h => ?_, ho.opening, ho.relaying, fun h => (ho.named h).trans (hgrown _),
    fun h => ?_⟩
  · apply ho.ended l hpresent
    by_cases hk : l.dst = k
    · rw [hk, ← hended l hk]
      simpa [Relay.setWire, hk] using h
    · simpa [Relay.setWire, hk] using h
  · obtain ⟨htoTarget, htoA, hdialed, hdown⟩ := ho.piping h
    exact ⟨htoTarget, htoA, hdialed, hdown.trans (hgrown _)⟩

/-- A loop is started, or goes on. -/
theorem Open.setPump (ho : Open name s) {l : Loop} {p : Pump}
    (hended : s.Present l → (s.wire l.dst).ended = true → p = .done)
    (hnamed : l = .toB → frame name <+: (s.wire .up).carried) : Open name (s.setPump l p) := by
  have hstarted : ∀ j, s.pump j ≠ none → (s.setPump l p).pump j ≠ none := by
    intro j hj
    by_cases hjl : j = l
    · subst hjl
      simp [Relay.setPump]
    · simpa [Relay.setPump, hjl] using hj
  refine ⟨fun j hpresent h => ?_, fun h => hstarted _ (ho.opening h),
    fun h => hstarted _ (ho.relaying h), fun h => ?_, fun h => ?_⟩
  · by_cases hjl : j = l
    · subst hjl
      simp [Relay.setPump, hended hpresent h]
    · simpa [Relay.setPump, hjl] using ho.ended j hpresent h
  · by_cases hl : l = .toB
    · exact hnamed hl
    · apply ho.named
      simpa [Relay.setPump, Ne.symm hl] using h
  · obtain ⟨htoTarget, htoA, hrest⟩ := ho.piping h
    exact ⟨hstarted _ htoTarget, hstarted _ htoA, hrest⟩

/-- A goes on. -/
theorem Open.setFront (ho : Open name s) {k : Front} (hpresent : k ≠ .dropped → s.front ≠ .dropped)
    (hopening : k = .opening ∨ k = .relaying → s.pump .toB ≠ none)
    (hrelaying : k = .relaying → s.pump .fromB ≠ none) : Open name { s with front := k } where
  ended l hl h := by
    cases l with
    | toB | fromB => exact ho.ended _ (hpresent hl) h
    | toTarget | toA => exact ho.ended _ hl h
  opening := hopening
  relaying := hrelaying
  named := ho.named
  piping := ho.piping

/-- B goes on. -/
theorem Open.setInbound (ho : Open name s) {k : Inbound}
    (hpresent : k ≠ .dropped → s.inbound ≠ .dropped)
    (hpiping : k = .piping → s.pump .toTarget ≠ none ∧ s.pump .toA ≠ none ∧ s.dialed = true
      ∧ [1] <+: (s.wire .down).carried) : Open name { s with inbound := k } where
  ended l hl h := by
    cases l with
    | toB | fromB => exact ho.ended _ hl h
    | toTarget | toA => exact ho.ended _ (hpresent hl) h
  opening := ho.opening
  relaying := ho.relaying
  named := ho.named
  piping := hpiping

theorem ne_none_of_abort {p : Option Pump} (h : abort p ≠ none) : p ≠ none := by
  rintro rfl
  exact h (by simp [abort, returned])

/-- What A gives up is not B's. -/
theorem Open.dropFront (ho : Open name s) : Open name s.dropFront where
  ended l hl h := by
    cases l with
    | toB | fromB => exact absurd rfl hl
    | toTarget | toA => exact ho.ended _ hl h
  opening h := by simp [Relay.dropFront] at h
  relaying h := by simp [Relay.dropFront] at h
  named h := ho.named (ne_none_of_abort h)
  piping h := ho.piping h

theorem Open.dropInbound (ho : Open name s) : Open name s.dropInbound where
  ended l hl h := by
    cases l with
    | toB | fromB => exact ho.ended _ hl h
    | toTarget | toA => exact absurd rfl hl
  opening := ho.opening
  relaying := ho.relaying
  named := ho.named
  piping h := by simp [Relay.dropInbound] at h

theorem Open.beginNaming (ho : Open name s) (hpresent : s.front ≠ .dropped) (data : Bytes) :
    Open name (s.beginNaming data) := by
  unfold Relay.beginNaming
  cases FrameWrite.start data with
  | failed e => exact ho.dropFront
  | header | data | flushing | done => exact ho.setFront (fun _ => hpresent) (by simp) (by simp)

/-! ### One step -/

theorem pollRead_snd (w : Wire) (room : Nat) (a : ReadAnswer) :
    ∃ n, (w.pollRead room a).2 = w.advance n := by
  cases a with
  | upTo n =>
      simp only [Wire.pollRead]
      split
      · exact ⟨0, rfl⟩
      · exact ⟨_, rfl⟩
  | pending | fail => exact ⟨0, rfl⟩

theorem recordRead_snd (r : Sni.RecordRead) (w : Wire) (a : ReadAnswer) :
    ∃ n, (r.step w a).2 = w.advance n := by
  cases r with
  | header got =>
      obtain ⟨n, hn⟩ := pollRead_snd w (Sni.recordHeaderLen - got.length) a
      refine ⟨n, ?_⟩
      simp only [Sni.RecordRead.step]
      repeat' split
      all_goals exact hn
  | body front len got =>
      obtain ⟨n, hn⟩ := pollRead_snd w (len - got.length) a
      refine ⟨n, ?_⟩
      simp only [Sni.RecordRead.step]
      repeat' split
      all_goals exact hn
  | done | failed => exact ⟨0, rfl⟩

/-- Reading touches nothing that is open. -/
theorem Open.advance (ho : Open name s) (k : Link) (n : Nat) :
    Open name (s.setWire k ((s.wire k).advance n)) :=
  ho.setWire (fun _ _ => rfl) List.prefix_rfl

theorem Open.push (ho : Open name s) (k : Link) (bytes : Bytes) :
    Open name (s.setWire k ((s.wire k).push bytes)) :=
  ho.setWire (fun _ _ => rfl) (List.prefix_append _ _)

/-- What leads to a loop of A or B only is not what is shut down. -/
theorem Open.outside (ho : Open name s) {k : Link} {w : Wire} (hk : ∀ l : Loop, l.dst ≠ k)
    (hcarried : (s.wire k).carried <+: w.carried) : Open name (s.setWire k w) :=
  ho.setWire (fun l hl => absurd hl (hk l)) hcarried

theorem dst_ne_visitorIn (l : Loop) : l.dst ≠ .visitorIn := by
  cases l <;> simp [Loop.dst]

theorem dst_ne_targetIn (l : Loop) : l.dst ≠ .targetIn := by
  cases l <;> simp [Loop.dst]

theorem open_peek (ho : Open name s) {a : ReadAnswer} {found : Bool}
    (hstep : s.step name resolve (.peek a found) = some t) : Open name t := by
  simp only [step] at hstep
  split at hstep
  · rename_i r hfront
    obtain ⟨n, hn⟩ := recordRead_snd r (s.wire .visitorIn) a
    have hread := ho.advance .visitorIn n
    rw [← hn] at hread
    split at hstep
    · rename_i buf hbuf
      split at hstep
      · obtain rfl := Option.some.inj hstep
        refine Open.beginNaming ?_ (by simp [Relay.setWire, hfront]) name
        exact ⟨hread.ended, hread.opening, hread.relaying, hread.named, hread.piping⟩
      · obtain rfl := Option.some.inj hstep
        exact hread.dropFront
    · obtain rfl := Option.some.inj hstep
      exact hread.dropFront
    · obtain rfl := Option.some.inj hstep
      exact hread.setFront (by simp [Relay.setWire, hfront]) (by simp) (by simp)
  · cases hstep

theorem open_name (hi : Inv name resolve s) (ho : Open name s) {a : WriteAnswer}
    (hstep : s.step name resolve (.name a) = some t) : Open name t := by
  have hphase := hi.front
  unfold FrontOk at hphase
  cases hfront : s.front with
  | peeking | opening | relaying | dropped => simp [step, hfront] at hstep
  | naming f =>
      simp only [hfront] at hphase
      obtain ⟨hf, -, -, hunsent, htoB, hun⟩ := hphase
      have hlive : (s.wire .up).ended = false :=
        ho.live_of_none (l := .toB) (by simp [Present, hfront]) htoB
      simp only [step, hfront] at hstep
      rcases f.step_cases hf (s.wire .up) a with ⟨e, heq, -⟩ | ⟨g, pushed, heq, hg, hpushed, -⟩
      · rw [heq] at hstep
        obtain rfl := Option.some.inj hstep
        exact (ho.advance .up 0).dropFront
      · rw [heq] at hstep
        have hwritten := ho.push .up pushed
        cases g with
        | done =>
            -- The frame is all there.
            have hframe : frame name <+: (s.wire .up).carried ++ pushed := by
              rw [hpushed] at hunsent
              simp only [FrameWrite.unsent, List.append_nil] at hunsent
              exact hunsent ▸ List.prefix_rfl
            obtain rfl := Option.some.inj hstep
            refine Open.setFront (k := .opening) (Open.setPump hwritten ?_ ?_)
              (by simp [Relay.setPump, Relay.setWire, hfront]) (by simp [Relay.setPump]) (by simp)
            · intro _ h
              simp [Relay.setWire, Loop.dst, hlive] at h
            · intro _
              simpa [Relay.setWire] using hframe
        | header | data | flushing =>
            obtain rfl := Option.some.inj hstep
            exact hwritten.setFront (by simp [Relay.setWire, hfront]) (by simp) (by simp)
        | failed e => exact absurd hg (by simp [FrameWrite.Ok])

theorem open_status (hi : Inv name resolve s) (ho : Open name s) {a : ReadAnswer}
    (hstep : s.step name resolve (.status a) = some t) : Open name t := by
  have hphase := hi.front
  unfold FrontOk at hphase
  cases hfront : s.front with
  | peeking | naming | relaying | dropped => simp [step, hfront] at hstep
  | opening =>
      simp only [hfront] at hphase
      obtain ⟨hfromB, -, -⟩ := hphase
      have hlive : (s.wire .visitorOut).ended = false :=
        ho.live_of_none (l := .fromB) (by simp [Present, hfront]) hfromB
      obtain ⟨n, hn⟩ := pollRead_snd (s.wire .down) 1 a
      have hread := ho.advance .down n
      simp only [step, hfront, hn] at hstep
      split at hstep
      · obtain rfl := Option.some.inj hstep
        exact hread.dropFront
      · obtain rfl := Option.some.inj hstep
        exact hread
      · split at hstep
        · obtain rfl := Option.some.inj hstep
          refine Open.setFront (k := .relaying) (Open.setPump hread ?_ (by simp))
            (by simp [Relay.setPump, Relay.setWire, hfront]) ?_ (by simp [Relay.setPump])
          · intro _ h
            simp [Relay.setWire, Loop.dst, hlive] at h
          · intro _
            simpa [Relay.setPump, Relay.setWire] using ho.opening (Or.inl hfront)
        · obtain rfl := Option.some.inj hstep
          exact hread.dropFront

theorem open_header (ho : Open name s) {a : ReadAnswer} (hi : Inv name resolve s)
    (hstep : s.step name resolve (.header a) = some t) : Open name t := by
  have hphase := hi.inbound
  unfold InboundOk at hphase
  cases hinbound : s.inbound with
  | dialing | answering | flushing | piping | dropped => simp [step, hinbound] at hstep
  | naming f =>
      simp only [hinbound] at hphase
      obtain ⟨got, hwire, -, -⟩ := FrameRead.step_spec hphase.1 (s.wire .up) a
      have hread := ho.advance .up got.length
      simp only [step, hinbound, hwire] at hstep
      split at hstep
      · split at hstep
        · obtain rfl := Option.some.inj hstep
          exact hread.setInbound (by simp [Relay.setWire, hinbound]) (by simp)
        · obtain rfl := Option.some.inj hstep
          exact hread.dropInbound
      · obtain rfl := Option.some.inj hstep
        exact hread.dropInbound
      · rename_i g hdone hfailed
        obtain rfl := Option.some.inj hstep
        exact hread.setInbound (by simp [Relay.setWire, hinbound]) (by simp)

theorem open_answer (hi : Inv name resolve s) (ho : Open name s) {a : WriteAnswer}
    (hstep : s.step name resolve (.answer a) = some t) : Open name t := by
  have hphase := hi.inbound
  unfold InboundOk at hphase
  cases hinbound : s.inbound with
  | naming | dialing | piping | dropped => simp [step, hinbound] at hstep
  | answering ok =>
      obtain ⟨pushed, hpushed, -⟩ := (s.wire .down).pollWrite_pushes [statusByte ok] a
      have hwritten := ho.push .down pushed
      simp only [step, hinbound, hpushed] at hstep
      split at hstep
      · split at hstep
        · obtain rfl := Option.some.inj hstep
          exact hwritten.dropInbound
        · obtain rfl := Option.some.inj hstep
          exact hwritten.setInbound (by simp [Relay.setWire, hinbound]) (by simp)
      · obtain rfl := Option.some.inj hstep
        exact hwritten.setInbound (by simp [Relay.setWire, hinbound]) (by simp)
      · obtain rfl := Option.some.inj hstep
        exact hwritten
  | flushing ok =>
      simp only [hinbound] at hphase
      obtain ⟨-, hdown, hdialed, hquiet⟩ := hphase
      have hout : (s.wire .targetOut).ended = false :=
        ho.live_of_none (l := .toTarget) (by simp [Present, hinbound]) hquiet.toTarget
      have hback : (s.wire .down).ended = false :=
        ho.live_of_none (l := .toA) (by simp [Present, hinbound]) hquiet.toA
      simp only [step, hinbound] at hstep
      split at hstep
      · split at hstep
        · rename_i hok
          obtain rfl := Option.some.inj hstep
          have hstarted : Open name (s.setPump .toTarget .reading) :=
            ho.setPump (fun _ h => by simp [Loop.dst, hout] at h) (by simp)
          have hboth : Open name ((s.setPump .toTarget .reading).setPump .toA .reading) :=
            hstarted.setPump (fun _ h => by simp [Relay.setPump, Loop.dst, hback] at h) (by simp)
          refine hboth.setInbound (by simp [Relay.setPump, hinbound]) fun _ => ?_
          refine ⟨by simp [Relay.setPump], by simp [Relay.setPump], hdialed.trans hok, ?_⟩
          simp [Relay.setPump, hdown hok]
        · obtain rfl := Option.some.inj hstep
          exact ho.dropInbound
      · obtain rfl := Option.some.inj hstep
        exact ho.dropInbound
      · obtain rfl := Option.some.inj hstep
        exact ho

theorem open_read (ho : Open name s) {l : Loop} {a : ReadAnswer}
    (hstep : s.step name resolve (.read l a) = some t) : Open name t := by
  simp only [step] at hstep
  split at hstep
  · rename_i p hpump
    split at hstep
    · rename_i hreading
      obtain rfl := Option.some.inj hstep
      obtain ⟨n, hn⟩ := pollRead_snd (s.wire l.src) bufSize a
      rw [hn]
      have hnot : p ≠ .done := by
        rintro rfl
        cases hreading
      refine Open.setPump (ho.advance l.src n) (fun hpresent h => ?_) ?_
      · -- The loop has not shut its writer down, and reading does not end it.
        have hpresent' : s.Present l := by cases l <;> exact hpresent
        have hlive := ho.live_of_ne_done hpresent' hpump hnot
        simp [Relay.setWire, Ne.symm l.src_ne_dst, hlive] at h
      · rintro rfl
        exact (ho.advance _ n).named (by simp [Relay.setWire, hpump])
    · cases hstep
  · cases hstep

/-- A loop that is done has shut its writer down. -/
theorem Open.shutdown (ho : Open name s) {l : Loop} (hdone : s.pump l = some .done) :
    Open name (s.setWire l.dst { s.wire l.dst with ended := true }) := by
  have hcarried : ∀ k, ((s.setWire l.dst { s.wire l.dst with ended := true }).wire k).carried
      = (s.wire k).carried := by
    intro k
    by_cases hk : k = l.dst
    · subst hk
      simp [Relay.setWire]
    · simp [Relay.setWire, hk]
  refine ⟨fun j hpresent h => ?_, ho.opening, ho.relaying, fun h => ?_, fun h => ?_⟩
  · by_cases hj : j = l
    · exact hj ▸ hdone
    · have hdst : j.dst ≠ l.dst := fun heq => hj (Loop.dst_injective heq)
      refine ho.ended j (by cases j <;> exact hpresent) ?_
      simpa [Relay.setWire, hdst] using h
  · rw [hcarried]
    exact ho.named h
  · rw [hcarried]
    exact ho.piping h

theorem open_write (ho : Open name s) {l : Loop} {a : WriteAnswer}
    (hstep : s.step name resolve (.write l a) = some t) : Open name t := by
  have hpresent' : ∀ w, (s.setWire l.dst w).Present l → s.Present l := by
    intro w h
    cases l <;> exact h
  simp only [step] at hstep
  split at hstep
  · rename_i rest n hpump
    obtain rfl := Option.some.inj hstep
    obtain ⟨pushed, hpushed, -⟩ := (s.wire l.dst).pollWrite_pushes rest a
    rw [hpushed]
    refine Open.setPump (ho.push l.dst pushed) (fun hpresent h => ?_) ?_
    · have hlive := ho.live_of_ne_done (hpresent' _ hpresent) hpump (by simp)
      simp [Relay.setWire, hlive] at h
    · rintro rfl
      exact (ho.push _ pushed).named (by simp [Relay.setWire, hpump])
  · rename_i hpump
    obtain rfl := Option.some.inj hstep
    have hlive : s.Present l → (s.wire l.dst).ended = false :=
      fun hpresent => ho.live_of_ne_done hpresent hpump (by simp)
    have hnamed : l = .toB → frame name <+: (s.wire .up).carried := by
      rintro rfl
      exact ho.named (by simp [hpump])
    have hdone : Open name (s.setPump l .done) := ho.setPump (fun _ _ => rfl) hnamed
    cases a with
    | fail => exact hdone.advance l.dst 0
    | pending =>
        refine Open.advance (ho.setPump (fun hpresent h => ?_) hnamed) l.dst 0
        rw [hlive hpresent] at h
        cases h
    | upTo n | zero => exact hdone.shutdown (by simp [Relay.setPump])
  · cases hstep

theorem open_step {e : Event} (hi : Inv name resolve s) (ho : Open name s)
    (hstep : s.step name resolve e = some t) : Open name t := by
  cases e with
  | peek a found => exact open_peek ho hstep
  | name a => exact open_name hi ho hstep
  | status a => exact open_status hi ho hstep
  | header a => exact open_header ho hi hstep
  | answer a => exact open_answer hi ho hstep
  | read l a => exact open_read ho hstep
  | write l a => exact open_write ho hstep
  | dial ok =>
      simp only [step] at hstep
      split at hstep
      · rename_i hdialing
        obtain rfl := Option.some.inj hstep
        have hgoes := ho.setInbound (k := .answering ok) (by simp [hdialing]) (by simp)
        exact ⟨hgoes.ended, hgoes.opening, hgoes.relaying, hgoes.named, by simp⟩
      · cases hstep
  | visitorSends bytes =>
      simp only [step] at hstep
      split at hstep
      · cases hstep
      · obtain rfl := Option.some.inj hstep
        exact ho.push .visitorIn bytes
  | visitorCloses =>
      obtain rfl := Option.some.inj hstep
      exact ho.outside dst_ne_visitorIn List.prefix_rfl
  | targetSends bytes =>
      simp only [step] at hstep
      split at hstep
      · cases hstep
      · obtain rfl := Option.some.inj hstep
        exact ho.push .targetIn bytes
  | targetCloses =>
      simp only [step] at hstep
      split at hstep
      · cases hstep
      · obtain rfl := Option.some.inj hstep
        exact ho.outside dst_ne_targetIn List.prefix_rfl
  | finishFront =>
      simp only [step] at hstep
      split at hstep
      · split at hstep
        · obtain rfl := Option.some.inj hstep
          exact ho.dropFront
        · cases hstep
      · cases hstep
  | finishInbound =>
      simp only [step] at hstep
      split at hstep
      · obtain rfl := Option.some.inj hstep
        exact ho.dropInbound
      · cases hstep
  | cancelFront =>
      obtain rfl := Option.some.inj hstep
      exact ho.dropFront
  | cancelInbound =>
      simp only [step] at hstep
      split at hstep
      · obtain rfl := Option.some.inj hstep
        exact ho.setInbound (fun h => absurd rfl h) (by simp)
      · obtain rfl := Option.some.inj hstep
        exact ho.dropInbound

theorem open_initial (name : Bytes) (seen : Option Bytes) : Open name (initial name seen) := by
  have hincoming : ∀ replay, Open name (incoming replay) := by
    intro replay
    refine ⟨fun l _ h => ?_, by simp [incoming], by simp [incoming], fun h => absurd rfl h,
      by simp [incoming]⟩
    simp [incoming, dst_ne_visitorIn l, Wire.empty] at h
  cases seen with
  | none => exact hincoming []
  | some replay => exact (hincoming replay).beginNaming (by simp [incoming]) name

theorem open_run {es : List Event} {seen : Option Bytes}
    (hrun : (machine name resolve).run (initial name seen) es = some s) : Open name s := by
  have h : Inv name resolve s ∧ Open name s := by
    apply (machine name resolve).run_invariant (fun s => Inv name resolve s ∧ Open name s) _ _ hrun
    · rintro s e t ⟨hi, ho⟩ hstep
      exact ⟨inv_step hi hstep, open_step hi ho hstep⟩
    · exact ⟨inv_initial name resolve seen, open_initial name seen⟩
  exact h.2

/-! ## What is still to be done -/

/-- Neither end has given up, B's dial has not failed, and no copy loop has, nor a shutdown. -/
structure Alive (s : Relay) : Prop where
  front : (∃ f, s.front = .naming f) ∨ s.front = .opening ∨ s.front = .relaying
  inbound : (∃ f, s.inbound = .naming f) ∨ s.inbound = .dialing ∨ s.inbound = .answering true
    ∨ s.inbound = .flushing true ∨ s.inbound = .piping
  healthy : ∀ l e, s.pump l ≠ some (.failed e)
  shut : ∀ l, s.pump l = some .done → (s.wire l.dst).ended = true

theorem Alive.present (ha : Alive s) (l : Loop) : s.Present l := by
  have hfront : s.front ≠ .dropped := by
    rcases ha.front with ⟨f, h⟩ | h | h
    · simp [h]
    · simp [h]
    · simp [h]
  have hinbound : s.inbound ≠ .dropped := by
    rcases ha.inbound with ⟨f, h⟩ | h | h | h | h
    · simp [h]
    · simp [h]
    · simp [h]
    · simp [h]
    · simp [h]
  cases l with
  | toB | fromB => exact hfront
  | toTarget | toA => exact hinbound

/-- An event that is a poll of one of the two ends, or the target's answer to the dial. -/
def Event.isPoll : Event → Bool
  | .name _ | .status _ | .header _ | .dial _ | .answer _ | .read _ _ | .write _ _ => true
  | .peek _ _ | .visitorSends _ | .visitorCloses | .targetSends _ | .targetCloses | .finishFront
  | .finishInbound | .cancelFront | .cancelInbound => false

/-- A byte has the more polls ahead of it the earlier it is on its way. -/
def weight : Loop → Nat
  | .toB | .toA => 8
  | .toTarget | .fromB => 6

/-- How far a loop is from its end. -/
def stage : Option Pump → Nat
  | some .done | some (.failed _) => 0
  | some .shuttingDown => 1
  | _ => 2

def heldBy : Option Pump → Bytes
  | some p => p.held
  | none => []

/-- What is left for a loop. -/
def loopToDo (l : Loop) (src : Wire) (p : Option Pump) : Nat :=
  weight l * src.unread.length + (weight l - 1) * (heldBy p).length + stage p

def frontToDo (replay : Bytes) : Front → Nat
  | .naming f => 1 + f.left + 7 * f.unsent.length + 7 * replay.length
  | _ => 0

def inboundToDo : Inbound → Nat
  | .naming _ => 10
  | .dialing => 9
  | .answering _ => 8
  | .flushing _ => 1
  | .piping | .dropped => 0

/-- How many polls are left at most, where each gets what there is. -/
def toDo (s : Relay) : Nat :=
  frontToDo s.replay s.front + inboundToDo s.inbound
    + (loopToDo .toB (s.wire .visitorIn) (s.pump .toB) + loopToDo .fromB (s.wire .down) (s.pump .fromB))
    + (loopToDo .toTarget (s.wire .up) (s.pump .toTarget) + loopToDo .toA (s.wire .targetIn) (s.pump .toA))

@[simp] theorem heldBy_none : heldBy none = [] := rfl

@[simp] theorem heldBy_some (p : Pump) : heldBy (some p) = p.held := rfl

@[simp] theorem stage_none : stage none = 2 := rfl

@[simp] theorem stage_shuttingDown : stage (some .shuttingDown) = 1 := rfl

@[simp] theorem stage_done : stage (some .done) = 0 := rfl

/-- A loop that is copying, or starts to. -/
theorem stage_copying {p : Pump} (h : p.isReading = true ∨ ∃ rest n, p = .writing rest n) :
    stage (some p) = 2 := by
  rcases h with h | ⟨rest, n, rfl⟩
  · cases p with
    | reading | waiting => rfl
    | writing | shuttingDown | done | failed => cases h
  · rfl

@[simp] theorem stage_reading : stage (some .reading) = 2 := rfl

@[simp] theorem stage_startToB (replay : Bytes) : stage (some (startToB replay)) = 2 := by
  unfold startToB
  split
  · rfl
  · rfl

/-- There is nothing for a loop to do until more is sent. -/
def LoopSettled (s : Relay) (l : Loop) : Prop :=
  s.pump l = some .done ∨ (∃ p, s.pump l = some p ∧ p.isReading = true)
    ∧ (s.wire l.src).unread = [] ∧ (s.wire l.src).ended = false

structure Settled (s : Relay) : Prop where
  front : s.front = .relaying
  inbound : s.inbound = .piping
  loops : ∀ l, s.LoopSettled l

/-- The visitor and the target have sent what they had sent. -/
structure SameSent (s t : Relay) : Prop where
  visitor : (t.wire .visitorIn).carried = (s.wire .visitorIn).carried
    ∧ (t.wire .visitorIn).ended = (s.wire .visitorIn).ended
  target : (t.wire .targetIn).carried = (s.wire .targetIn).carried
    ∧ (t.wire .targetIn).ended = (s.wire .targetIn).ended

/-- A poll that gets ahead. -/
def Advances (name : Bytes) (resolve : Bytes → Bool) (s : Relay) : Prop :=
  ∃ e t, e.isPoll = true ∧ s.step name resolve e = some t ∧ Alive t ∧ SameSent s t
    ∧ t.toDo < s.toDo

/-- No loop fails and none ends. -/
structure Keeps (s t : Relay) : Prop where
  healthy : ∀ l e, t.pump l = some (.failed e) → s.pump l = some (.failed e)
  going : ∀ l, t.pump l = some .done → s.pump l = some .done
  ended : ∀ l : Loop, (s.wire l.dst).ended = true → (t.wire l.dst).ended = true

theorem keeps_self (s : Relay) : Keeps s s := ⟨fun _ _ h => h, fun _ h => h, fun _ h => h⟩

theorem Keeps.setWire (h : Keeps s t) {k : Link} {w : Wire} (hended : w.ended = (t.wire k).ended) :
    Keeps s (t.setWire k w) := by
  refine ⟨h.healthy, h.going, fun l hl => ?_⟩
  by_cases hk : l.dst = k
  · have hw := h.ended l hl
    rw [hk, ← hended] at hw
    simpa [Relay.setWire, hk] using hw
  · simpa [Relay.setWire, hk] using h.ended l hl

theorem Keeps.setPump (h : Keeps s t) {l : Loop} {p : Pump} (hp : ∀ e, p ≠ .failed e) (hgoing : p ≠ .done) :
    Keeps s (t.setPump l p) := by
  refine ⟨fun j e hj => ?_, fun j hj => ?_, h.ended⟩
  · by_cases hjl : j = l
    · subst hjl
      simp [Relay.setPump, hp] at hj
    · exact h.healthy j e (by simpa [Relay.setPump, hjl] using hj)
  · by_cases hjl : j = l
    · subst hjl
      simp [Relay.setPump, hgoing] at hj
    · exact h.going j (by simpa [Relay.setPump, hjl] using hj)

theorem Alive.of_keeps (ha : Alive s)
    (hfront : (∃ f, t.front = .naming f) ∨ t.front = .opening ∨ t.front = .relaying)
    (hinbound : (∃ f, t.inbound = .naming f) ∨ t.inbound = .dialing ∨ t.inbound = .answering true
      ∨ t.inbound = .flushing true ∨ t.inbound = .piping)
    (hkeeps : Keeps s t) : Alive t where
  front := hfront
  inbound := hinbound
  healthy l e h := ha.healthy l e (hkeeps.healthy l e h)
  shut l h := hkeeps.ended l (ha.shut l (hkeeps.going l h))

theorem startToB_going (replay : Bytes) : (∀ e, startToB replay ≠ .failed e) ∧ startToB replay ≠ .done := by
  unfold startToB
  split
  · simp
  · simp

/-- A writes the name of the tunnel. -/
theorem advances_naming (hi : Inv name resolve s) (ho : Open name s) (ha : Alive s) {f : FrameWrite}
    (hfront : s.front = .naming f) : Advances name resolve s := by
  have hphase := hi.front
  unfold FrontOk at hphase
  simp only [hfront] at hphase
  obtain ⟨hf, -, -, -, htoB, -⟩ := hphase
  have hlive : (s.wire .up).ended = false := ho.live_of_none (ha.present .toB) htoB
  have hunread : ∀ bytes, ((s.wire .up).push bytes).unread.length
      = (s.wire .up).unread.length + bytes.length := by
    intro bytes
    rw [Wire.unread_push (hi.loops.within .up), List.length_append]
  rcases f.step_cases hf (s.wire .up) f.takeAll with ⟨e, -, hcause⟩ | ⟨g, pushed, heq, hg, hsplit, -⟩
  · simp [hlive, FrameWrite.takeAll] at hcause
  · have hlen : f.unsent.length = pushed.length + g.unsent.length := by
      rw [hsplit, List.length_append]
    by_cases hgd : g = .done
    · -- The name is written, and the visitor's bytes are next.
      subst hgd
      refine ⟨.name f.takeAll, { (s.setWire .up ((s.wire .up).push pushed)).setPump .toB
        (startToB s.replay) with front := .opening }, rfl, ?_, ?_, ⟨⟨rfl, rfl⟩, rfl, rfl⟩, ?_⟩
      · simp only [step, hfront, heq]
        rfl
      · obtain ⟨hfailed, hgoing⟩ := startToB_going s.replay
        have hkeeps := ((keeps_self s).setWire (k := .up) (w := (s.wire .up).push pushed) rfl).setPump
          (l := .toB) hfailed hgoing
        exact ha.of_keeps (Or.inr (Or.inl rfl)) ha.inbound ⟨hkeeps.healthy, hkeeps.going, hkeeps.ended⟩
      · have hall : FrameWrite.done.unsent.length = 0 := rfl
        simp [toDo, frontToDo, loopToDo, Relay.setWire, Relay.setPump, weight, hfront, htoB, hunread]
        omega
    · refine ⟨.name f.takeAll, { s.setWire .up ((s.wire .up).push pushed) with front := .naming g }, rfl,
        ?_, ?_, ⟨⟨rfl, rfl⟩, rfl, rfl⟩, ?_⟩
      · simp only [step, hfront, heq]
        cases g with
        | done => exact absurd rfl hgd
        | failed e => exact absurd hg (by simp [FrameWrite.Ok])
        | header | data | flushing => rfl
      · have hkeeps := (keeps_self s).setWire (k := .up) (w := (s.wire .up).push pushed) rfl
        exact ha.of_keeps (Or.inl ⟨_, rfl⟩) ha.inbound ⟨hkeeps.healthy, hkeeps.going, hkeeps.ended⟩
      · have hnot : f ≠ .done := by
          rintro rfl
          rw [FrameWrite.step] at heq
          exact hgd (Prod.mk.inj heq).1.symm
        have hleft := (f.step_takeAll hf hnot hlive).2.1
        rw [heq] at hleft
        simp only at hleft
        simp [toDo, frontToDo, loopToDo, Relay.setWire, weight, hfront, hunread]
        omega

/-- What is unread after a poll that found something. -/
theorem exists_read {w : Wire} (room : Nat) (hroom : 0 < room) (hunread : w.unread ≠ []) (n : Nat) :
    ∃ b more rest, w.unread = (b :: more) ++ rest
      ∧ w.pollRead room (.upTo n) = (.ready (.ok (b :: more)), w.advance (b :: more).length)
      ∧ (w.advance (b :: more).length).unread = rest := by
  rcases w.pollRead_cases (.upTo n) hroom with heq | ⟨ha, -⟩ | ⟨hnil, -⟩ | ⟨got, rest, hgot, hsplit, -, heq⟩
  · rw [Wire.pollRead, if_neg (fun h => hunread h.1)] at heq
    cases heq
  · cases ha
  · exact absurd hnil hunread
  · obtain ⟨b, more, rfl⟩ := List.exists_cons_of_ne_nil hgot
    exact ⟨b, more, rest, hsplit, heq, (Wire.read_advance hsplit).2⟩

/-- A poll for a frame that finds something takes it. -/
theorem frameRead_takes {maxLen : Nat} {f : FrameRead} (hf : f.Ok maxLen) {w : Wire}
    (hunread : w.unread ≠ []) (n : Nat) :
    (f.step maxLen w (.upTo n)).2.unread.length < w.unread.length := by
  have hless : ∀ room : Nat, 0 < room → ∃ b more, (w.pollRead room (.upTo n)).1 = .ready (.ok (b :: more))
      ∧ (w.pollRead room (.upTo n)).2.unread.length < w.unread.length := by
    intro room hroom
    obtain ⟨b, more, rest, hsplit, heq, hrest⟩ := exists_read room hroom hunread n
    refine ⟨b, more, by rw [heq], ?_⟩
    rw [heq, hrest, hsplit, List.length_append, List.length_cons]
    omega
  cases f with
  | header got =>
      have hlt : got.length < 2 := hf
      obtain ⟨b, more, heq, hlen⟩ := hless (2 - got.length) (by omega)
      simp only [FrameRead.step, heq, readExact]
      split
      · exact hlen
      · exact hlen
  | body len got =>
      have hlt : got.length < len := hf.2.2
      obtain ⟨b, more, heq, hlen⟩ := hless (len - got.length) (by omega)
      simp only [FrameRead.step, heq, readExact]
      split
      · exact hlen
      · exact hlen
  | done | failed => exact absurd hf (by simp [FrameRead.Ok])

/-- B reads the name of the tunnel, once A has written it. -/
theorem advances_header (hi : Inv name resolve s) (ho : Open name s) (ha : Alive s)
    (hname : name.length ≤ maxNameLen) (hresolve : resolve name = true) (htoB : s.pump .toB ≠ none)
    {f : FrameRead} (hinbound : s.inbound = .naming f) : Advances name resolve s := by
  have hphase := hi.inbound
  unfold InboundOk at hphase
  simp only [hinbound] at hphase
  obtain ⟨hf, hread, -, -, -⟩ := hphase
  have hlt : name.length < 65536 := Nat.lt_of_le_of_lt hname (by decide)
  -- The frame is complete on the wire, and what was read of it is not.
  have hunread : (s.wire .up).unread ≠ [] := by
    intro hnil
    have hall := (s.wire .up).read_append_unread
    rw [hnil, List.append_nil, hread] at hall
    obtain ⟨rest, hrest⟩ := ho.named htoB
    rw [← hall] at hrest
    have hincomplete := hf.incomplete_held
    rw [← hrest] at hincomplete
    exact not_incomplete_frame hlt hincomplete
  have htakes := frameRead_takes hf hunread maxNameLen
  obtain ⟨got, hwire, hsplit, hout⟩ := FrameRead.step_spec hf (s.wire .up) (.upTo maxNameLen)
  have hcarried : (s.wire .up).carried = (f.held ++ got) ++ ((s.wire .up).advance got.length).unread := by
    rw [← hwire, ← hread, List.append_assoc, ← hsplit, Wire.read_append_unread]
  rw [hwire] at htakes
  have hkeeps := (keeps_self s).setWire (k := .up) (w := (s.wire .up).advance got.length) rfl
  generalize hg : (f.step maxNameLen (s.wire .up) (.upTo maxNameLen)).1 = out at hout
  cases hout with
  | going hok hheld =>
      refine ⟨.header (.upTo maxNameLen), { s.setWire .up ((s.wire .up).advance got.length) with
        inbound := .naming out }, rfl, ?_, ?_, ⟨⟨rfl, rfl⟩, rfl, rfl⟩, ?_⟩
      · simp only [step, hinbound, hg, hwire]
        cases out with
        | header | body => rfl
        | done | failed => exact absurd hok (by simp [FrameRead.Ok])
      · exact ha.of_keeps ha.front (Or.inl ⟨_, rfl⟩) ⟨hkeeps.healthy, hkeeps.going, hkeeps.ended⟩
      · simp [toDo, inboundToDo, loopToDo, Relay.setWire, weight, hinbound]
        omega
  | @done data hle hlt hframe =>
      rw [hframe] at hcarried
      obtain rfl : data = name := hi.name_of_read hlt hcarried
      refine ⟨.header (.upTo maxNameLen), { s.setWire .up ((s.wire .up).advance got.length) with
        inbound := .dialing }, rfl, ?_, ?_, ⟨⟨rfl, rfl⟩, rfl, rfl⟩, ?_⟩
      · simp only [step, hinbound, hg, hwire, hresolve, if_true]
      · exact ha.of_keeps ha.front (Or.inr (Or.inl rfl)) ⟨hkeeps.healthy, hkeeps.going, hkeeps.ended⟩
      · simp [toDo, inboundToDo, loopToDo, Relay.setWire, weight, hinbound]
        omega
  | tooLarge hlen hlarge =>
      -- The two bytes are those of the name's length.
      obtain ⟨rest, hrest⟩ := ho.named htoB
      have hlength : u16 (f.held ++ got) = name.length := by
        rw [← u16_append (b := ((s.wire .up).advance got.length).unread) (by omega), ← hcarried, ← hrest,
          u16_frame hlt]
      omega
  | eof hgot hnil => exact absurd hnil hunread
  | error hgot hfail => cases hfail

theorem advances_dialing (ha : Alive s) (hinbound : s.inbound = .dialing) :
    Advances name resolve s := by
  refine ⟨.dial true, { s with inbound := .answering true, dialed := true }, rfl, ?_, ?_,
    ⟨⟨rfl, rfl⟩, rfl, rfl⟩, ?_⟩
  · simp only [step, hinbound]
  · have hkeeps := keeps_self s
    exact ha.of_keeps ha.front (Or.inr (Or.inr (Or.inl rfl))) ⟨hkeeps.healthy, hkeeps.going, hkeeps.ended⟩
  · simp [toDo, inboundToDo, hinbound]

/-- B writes its byte. -/
theorem advances_answering (hi : Inv name resolve s) (ho : Open name s) (ha : Alive s)
    (hinbound : s.inbound = .answering true) : Advances name resolve s := by
  have hphase := hi.inbound
  unfold InboundOk at hphase
  simp only [hinbound] at hphase
  obtain ⟨-, -, -, hquiet⟩ := hphase
  have hlive : (s.wire .down).ended = false := ho.live_of_none (ha.present .toA) hquiet.toA
  refine ⟨.answer (.upTo 0), { s.setWire .down ((s.wire .down).push [1]) with inbound := .flushing true },
    rfl, ?_, ?_, ⟨⟨rfl, rfl⟩, rfl, rfl⟩, ?_⟩
  · simp [step, hinbound, Wire.pollWrite, hlive, writeAll, statusByte]
  · have hkeeps := (keeps_self s).setWire (k := .down) (w := (s.wire .down).push [1]) rfl
    exact ha.of_keeps ha.front (Or.inr (Or.inr (Or.inr (Or.inl rfl))))
      ⟨hkeeps.healthy, hkeeps.going, hkeeps.ended⟩
  · simp [toDo, inboundToDo, loopToDo, Relay.setWire, weight, hinbound,
      Wire.unread_push (hi.loops.within .down)]
    omega

theorem advances_flushing (hi : Inv name resolve s) (ha : Alive s)
    (hinbound : s.inbound = .flushing true) : Advances name resolve s := by
  have hphase := hi.inbound
  unfold InboundOk at hphase
  simp only [hinbound] at hphase
  obtain ⟨-, -, -, hquiet⟩ := hphase
  refine ⟨.answer (.upTo 0),
    { (s.setPump .toTarget .reading).setPump .toA .reading with inbound := .piping }, rfl, ?_, ?_,
    ⟨⟨rfl, rfl⟩, rfl, rfl⟩, ?_⟩
  · simp [step, hinbound, Wire.pollFlush]
  · have hkeeps := ((keeps_self s).setPump (l := .toTarget) (p := .reading) (by simp) (by simp)).setPump
      (l := .toA) (p := .reading) (by simp) (by simp)
    exact ha.of_keeps ha.front (Or.inr (Or.inr (Or.inr (Or.inr rfl))))
      ⟨hkeeps.healthy, hkeeps.going, hkeeps.ended⟩
  · simp [toDo, inboundToDo, loopToDo, Relay.setPump, weight, hinbound, hquiet.toTarget, hquiet.toA,
      Pump.held]

/-- A reads B's byte. -/
theorem advances_opening (hi : Inv name resolve s) (ho : Open name s) (ha : Alive s)
    (hfront : s.front = .opening) (hinbound : s.inbound = .piping) : Advances name resolve s := by
  have hphase := hi.front
  unfold FrontOk at hphase
  simp only [hfront] at hphase
  obtain ⟨hfromB, hread, -⟩ := hphase
  obtain ⟨-, -, -, tail, htail⟩ := ho.piping hinbound
  have hunread : (s.wire .down).unread = [1] ++ tail := by
    have hall := (s.wire .down).read_append_unread
    rwa [hread, List.nil_append, ← htail] at hall
  obtain ⟨b, more, rest, hsplit, heq, hrest⟩ :=
    exists_read 1 Nat.one_pos (by rw [hunread]; simp) 0
  obtain rfl : b = 1 := by
    rw [hunread] at hsplit
    exact (List.cons.inj hsplit).1.symm
  refine ⟨.status (.upTo 0), { (s.setWire .down ((s.wire .down).advance (1 :: more).length)).setPump
    .fromB .reading with front := .relaying }, rfl, ?_, ?_, ⟨⟨rfl, rfl⟩, rfl, rfl⟩, ?_⟩
  · simp only [step, hfront, heq, readExact]
    rfl
  · have hkeeps := ((keeps_self s).setWire (k := .down) (w := (s.wire .down).advance (1 :: more).length)
      rfl).setPump (l := .fromB) (p := .reading) (by simp) (by simp)
    exact ha.of_keeps (Or.inr (Or.inr rfl)) ha.inbound ⟨hkeeps.healthy, hkeeps.going, hkeeps.ended⟩
  · have hlen := congrArg List.length hsplit
    rw [List.length_append, List.length_cons] at hlen
    rw [List.length_cons] at hrest
    simp [toDo, frontToDo, loopToDo, Relay.setWire, Relay.setPump, weight, hfront, hfromB, Pump.held, hrest]
    omega

theorem Alive.of_loop (ha : Alive s) {l : Loop} {k : Link} {w : Wire} {p : Pump}
    (hended : w.ended = (s.wire k).ended) (hp : ∀ e, p ≠ .failed e) (hgoing : p ≠ .done) :
    Alive ((s.setWire k w).setPump l p) :=
  ha.of_keeps ha.front ha.inbound (((keeps_self s).setWire hended).setPump hp hgoing)

/-- What a poll of a loop leaves to be done, of a wire that leads to it. -/
theorem toDo_read {l : Loop} {w : Wire} {p : Pump}
    (hless : loopToDo l w (some p) < loopToDo l (s.wire l.src) (s.pump l)) :
    ((s.setWire l.src w).setPump l p).toDo < s.toDo := by
  cases l with
  | toB | fromB | toTarget | toA =>
      simp only [Loop.src] at hless
      simp [toDo, Relay.setWire, Relay.setPump, Loop.src]
      omega

/-- And of the wire that it leads to. -/
theorem toDo_write {l : Loop} {bytes : Bytes} {p : Pump}
    (hwithin : ∀ k, (s.wire k).taken ≤ (s.wire k).carried.length)
    (hless : 6 * bytes.length + loopToDo l (s.wire l.src) (some p)
      < loopToDo l (s.wire l.src) (s.pump l) ∨ (l = .toTarget ∨ l = .fromB)
        ∧ loopToDo l (s.wire l.src) (some p) < loopToDo l (s.wire l.src) (s.pump l)) :
    ((s.setWire l.dst ((s.wire l.dst).push bytes)).setPump l p).toDo < s.toDo := by
  cases l with
  | toB | fromB | toTarget | toA =>
      simp only [Loop.src] at hless
      simp [toDo, Relay.setWire, Relay.setPump, Loop.dst, loopToDo, weight, Wire.unread_push (hwithin _)]
      simp [loopToDo, weight] at hless
      omega

/-- A loop polls its reader. -/
theorem advances_reading (ha : Alive s) {l : Loop} {p : Pump} (hpump : s.pump l = some p)
    (hreading : p.isReading = true) (hmore : (s.wire l.src).unread ≠ [] ∨ (s.wire l.src).ended = true) :
    Advances name resolve s := by
  have hsent : ∀ n q, SameSent s ((s.setWire l.src ((s.wire l.src).advance n)).setPump l q) := by
    intro n q
    cases l <;> exact ⟨⟨rfl, rfl⟩, rfl, rfl⟩
  by_cases hunread : (s.wire l.src).unread = []
  · have hended := hmore.resolve_left (fun h => h hunread)
    refine ⟨.read l (.upTo 0), (s.setWire l.src ((s.wire l.src).advance 0)).setPump l .shuttingDown, rfl,
      ?_, ha.of_loop rfl (by simp) (by simp), hsent _ _, toDo_read ?_⟩
    · simp only [step, hpump, hreading, if_true, Wire.pollRead, hunread, hended]
      rfl
    · rw [hpump]
      simp [loopToDo, hunread, stage_copying (Or.inl hreading), Pump.held]
  · obtain ⟨b, more, rest, hsplit, heq, hrest⟩ :=
      exists_read bufSize (by decide) hunread bufSize
    refine ⟨.read l (.upTo bufSize), (s.setWire l.src ((s.wire l.src).advance (b :: more).length)).setPump l
      (.writing (b :: more) (b :: more).length), rfl, ?_, ha.of_loop rfl (by simp) (by simp), hsent _ _, toDo_read ?_⟩
    · simp only [step, hpump, hreading, if_true, heq]
      rfl
    · have hlen := congrArg List.length hsplit
      rw [List.length_append] at hlen
      rw [hpump]
      simp only [loopToDo, hrest, heldBy_some, Pump.held, stage_copying (Or.inl hreading),
        stage_copying (Or.inr ⟨_, _, rfl⟩), hlen]
      rw [List.length_cons] at hlen ⊢
      cases l with
      | toB | fromB | toTarget | toA =>
          simp only [weight]
          simp
          omega

/-- A loop writes what it holds. -/
theorem advances_writing (hi : Inv name resolve s) (ho : Open name s) (ha : Alive s) {l : Loop}
    {rest : Bytes} {n : Nat} (hpump : s.pump l = some (.writing rest n)) : Advances name resolve s := by
  have hlive := ho.live_of_ne_done (ha.present l) hpump (by simp)
  have hloop := hi.loops.loop l
  rw [hpump] at hloop
  have hrest : rest ≠ [] := Pump.Copies.ok hloop
  have hpos : 0 < rest.length := List.length_pos_iff.2 hrest
  refine ⟨.write l (.upTo rest.length), (s.setWire l.dst ((s.wire l.dst).push rest)).setPump l .reading, rfl,
    ?_, ha.of_loop rfl (by simp) (by simp), ?_, toDo_write hi.loops.within ?_⟩
  · have hmin : min (rest.length + 1) rest.length = rest.length := by omega
    have htake : rest.take (rest.length + 1) = rest := List.take_of_length_le (by omega)
    simp only [step, hpump, Wire.pollWrite, hlive, Bool.false_eq_true, if_false, hmin, htake, Pump.onWrite,
      writeAll, if_neg (Nat.ne_of_gt hpos), List.drop_length]
  · cases l <;> exact ⟨⟨rfl, rfl⟩, rfl, rfl⟩
  · rw [hpump]
    cases l with
    | toB | toA =>
        refine Or.inl ?_
        simp [loopToDo, weight, Pump.held, stage_copying (Or.inr ⟨rest, n, rfl⟩)]
        omega
    | toTarget =>
        refine Or.inr ⟨Or.inl rfl, ?_⟩
        simp [loopToDo, weight, Pump.held, stage_copying (Or.inr ⟨rest, n, rfl⟩)]
        omega
    | fromB =>
        refine Or.inr ⟨Or.inr rfl, ?_⟩
        simp [loopToDo, weight, Pump.held, stage_copying (Or.inr ⟨rest, n, rfl⟩)]
        omega

/-- A loop shuts its writer down. -/
theorem advances_shuttingDown (ha : Alive s) {l : Loop} (hpump : s.pump l = some .shuttingDown) :
    Advances name resolve s := by
  refine ⟨.write l (.upTo 0), (s.setWire l.dst { s.wire l.dst with ended := true }).setPump l .done, rfl, ?_,
    ⟨ha.front, ha.inbound, fun j e h => ?_, fun j h => ?_⟩, ?_, ?_⟩
  · simp only [step, hpump]
    rfl
  · by_cases hj : j = l
    · subst hj
      simp [Relay.setPump] at h
    · exact ha.healthy j e (by simpa [Relay.setWire, Relay.setPump, hj] using h)
  · by_cases hj : j = l
    · subst hj
      simp [Relay.setWire, Relay.setPump]
    · have hdst : j.dst ≠ l.dst := fun heq => hj (Loop.dst_injective heq)
      simpa [Relay.setWire, Relay.setPump, hdst] using
        ha.shut j (by simpa [Relay.setWire, Relay.setPump, hj] using h)
  · cases l <;> exact ⟨⟨rfl, rfl⟩, rfl, rfl⟩
  · have hsame : ∀ k, ({ s.wire k with ended := true } : Wire).unread = (s.wire k).unread := fun _ => rfl
    cases l with
    | toB | fromB | toTarget | toA =>
        simp [toDo, Relay.setWire, Relay.setPump, Loop.dst, loopToDo, hpump, Pump.held, hsame]

/-- **One more poll.**  As long as something is to be done, a poll of one of the two ends gets ahead. -/
theorem progress (hi : Inv name resolve s) (ho : Open name s) (ha : Alive s)
    (hname : name.length ≤ maxNameLen) (hresolve : resolve name = true) (hnot : ¬ Settled s) :
    Advances name resolve s := by
  have hstarted : s.pump .toB ≠ none → s.inbound ≠ .piping → Advances name resolve s := by
    intro htoB hpiping
    rcases ha.inbound with ⟨f, h⟩ | h | h | h | h
    · exact advances_header hi ho ha hname hresolve htoB h
    · exact advances_dialing ha h
    · exact advances_answering hi ho ha h
    · exact advances_flushing hi ha h
    · exact absurd h hpiping
  rcases ha.front with ⟨f, hfront⟩ | hfront | hfront
  · exact advances_naming hi ho ha hfront
  · by_cases hpiping : s.inbound = .piping
    · exact advances_opening hi ho ha hfront hpiping
    · exact hstarted (ho.opening (Or.inl hfront)) hpiping
  · by_cases hpiping : s.inbound = .piping
    · -- The four loops run, and one of them has something to do.
      obtain ⟨l, hl⟩ : ∃ l, ¬ s.LoopSettled l := by
        by_contra h
        push Not at h
        exact hnot ⟨hfront, hpiping, h⟩
      have hrunning : s.pump l ≠ none := by
        cases l with
        | toB => exact ho.opening (Or.inr hfront)
        | fromB => exact ho.relaying hfront
        | toTarget => exact (ho.piping hpiping).1
        | toA => exact (ho.piping hpiping).2.1
      have hmore : (∃ p, s.pump l = some p ∧ p.isReading = true) →
          (s.wire l.src).unread ≠ [] ∨ (s.wire l.src).ended = true := by
        intro hreading
        by_contra h
        push Not at h
        exact hl (Or.inr ⟨hreading, h.1, by simpa using h.2⟩)
      cases hpump : s.pump l with
      | none => exact absurd hpump hrunning
      | some p =>
          cases p with
          | reading => exact advances_reading ha hpump rfl (hmore ⟨_, hpump, rfl⟩)
          | waiting => exact advances_reading ha hpump rfl (hmore ⟨_, hpump, rfl⟩)
          | writing rest n => exact advances_writing hi ho ha hpump
          | shuttingDown => exact advances_shuttingDown ha hpump
          | done => exact absurd (Or.inl hpump) hl
          | failed e => exact absurd hpump (ha.healthy l e)
    · exact hstarted (ho.opening (Or.inr hfront)) hpiping

/-! ## The whole way -/

/-- What a settled loop has moved. -/
theorem LoopSettled.moved (hi : Inv name resolve s) {l : Loop} (hl : s.LoopSettled l) :
    lead name l ++ (s.wire l.dst).carried = head name s.dialed l ++ (s.wire l.src).carried := by
  have hloop := hi.loops.loop l
  rcases hl with hdone | ⟨⟨p, hpump, hreading⟩, hunread, -⟩
  · rw [hdone] at hloop
    exact (Pump.Copies.of_done hloop).1
  · rw [hpump] at hloop
    obtain ⟨hheld, hgoing⟩ := Pump.held_of_isReading hreading
    have hall := Pump.Copies.all_moved hloop hgoing
    have hread := (s.wire l.src).read_append_unread
    rw [hunread, List.append_nil] at hread
    rwa [hheld, List.append_nil, hread] at hall

theorem Settled.delivered (hi : Inv name resolve s) (ho : Open name s) (hs : Settled s) :
    (s.wire .targetOut).carried = (s.wire .visitorIn).carried
      ∧ (s.wire .visitorOut).carried = (s.wire .targetIn).carried := by
  have hdialed := (ho.piping hs.inbound).2.2.1
  have htoB : [] ++ (s.wire .up).carried = frame name ++ (s.wire .visitorIn).carried :=
    (hs.loops .toB).moved hi
  have htoTarget : frame name ++ (s.wire .targetOut).carried = [] ++ (s.wire .up).carried :=
    (hs.loops .toTarget).moved hi
  have htoA : [] ++ (s.wire .down).carried = [statusByte s.dialed] ++ (s.wire .targetIn).carried :=
    (hs.loops .toA).moved hi
  have hfromB : [1] ++ (s.wire .visitorOut).carried = [] ++ (s.wire .down).carried :=
    (hs.loops .fromB).moved hi
  rw [hdialed] at htoA
  exact ⟨List.append_cancel_left (htoTarget.trans htoB), List.append_cancel_left (hfromB.trans htoA)⟩

/-- An end of file goes through a settled loop. -/
theorem LoopSettled.passed (ha : Alive s) {l : Loop} (hl : s.LoopSettled l)
    (hended : (s.wire l.src).ended = true) : s.pump l = some .done ∧ (s.wire l.dst).ended = true := by
  rcases hl with hdone | ⟨-, -, hopen⟩
  · exact ⟨hdone, ha.shut l hdone⟩
  · rw [hopen] at hended
    cases hended

/-- What polls of the two ends lead to. -/
structure Delivered (name : Bytes) (resolve : Bytes → Bool) (s t : Relay) : Prop where
  /-- The target has all that the visitor has sent, and the visitor all that the target has. -/
  request : (t.wire .targetOut).carried = (s.wire .visitorIn).carried
  response : (t.wire .visitorOut).carried = (s.wire .targetIn).carried
  request_ended : (s.wire .visitorIn).ended = true → (t.wire .targetOut).ended = true
  response_ended : (s.wire .targetIn).ended = true → (t.wire .visitorOut).ended = true
  /-- Where both have closed, both ends can return. -/
  closed : (s.wire .visitorIn).ended = true → (s.wire .targetIn).ended = true →
    (t.step name resolve .finishFront).isSome ∧ (t.step name resolve .finishInbound).isSome

theorem delivered_of_settled (hi : Inv name resolve t) (ho : Open name t) (ha : Alive t) (ht : Settled t)
    (hsent : SameSent s t) : Delivered name resolve s t := by
  obtain ⟨⟨hvisitor, hvisitorEnded⟩, htarget, htargetEnded⟩ := hsent
  obtain ⟨hrequest, hresponse⟩ := ht.delivered hi ho
  have hup : (s.wire .visitorIn).ended = true → t.pump .toB = some .done ∧ t.pump .toTarget = some .done
      ∧ (t.wire .targetOut).ended = true := by
    intro h
    obtain ⟨htoB, hended⟩ := (ht.loops .toB).passed ha (hvisitorEnded.trans h)
    exact ⟨htoB, (ht.loops .toTarget).passed ha hended⟩
  have hdown : (s.wire .targetIn).ended = true → t.pump .toA = some .done ∧ t.pump .fromB = some .done
      ∧ (t.wire .visitorOut).ended = true := by
    intro h
    obtain ⟨htoA, hended⟩ := (ht.loops .toA).passed ha (htargetEnded.trans h)
    exact ⟨htoA, (ht.loops .fromB).passed ha hended⟩
  refine ⟨hrequest.trans hvisitor, hresponse.trans htarget, fun h => (hup h).2.2, fun h => (hdown h).2.2,
    fun h h' => ?_⟩
  obtain ⟨htoB, htoTarget, -⟩ := hup h
  obtain ⟨htoA, hfromB, -⟩ := hdown h'
  simp [step, ht.front, htoB, htoTarget, htoA, hfromB, returned]

/-- The visitor sends and closes while the name of the tunnel is still being written. -/
def earlyRun : List Event := [.name (.upTo 0), .visitorSends [8, 9], .visitorCloses, .header (.upTo 0)]

end Relay
end Reverse
end Erbridge
