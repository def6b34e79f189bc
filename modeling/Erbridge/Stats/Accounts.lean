import Erbridge.Stats.Totals

/-!
# What the totals add up to

The invariants of `Traffic` and what follows for the reports of `totals`.

* `Traffic.Shape` — which connections are on the list: those that an `open` has put there and no `close`
  has taken off.
* `Traffic.Counts` — the bytes of a connection are on the list until its close takes it off, and what
  the close has loaded is all of them.
* `Traffic.Readers` — what a `totals` in progress has got so far lies between the earlier reports and
  what is counted.
* `totals_consistent` — in runs whose steps all meet the condition, what is reported is never too much,
  never shrinks, and is exact when nothing is in progress.
* `counted_twice` — a report of bytes that were counted once.
-/

namespace Erbridge
namespace Stats

/-- An `open` that has returned has put its connection on the list. -/
theorem Call.isPushed_of_isOpened {call : Call} (h : call.isOpened = true) : call.isPushed = true := by
  cases call with
  | opening info stage => cases stage <;> simp [isOpened, isPushed] at h ⊢
  | closing => cases h
  | totals => cases h

/-- What a `close` has added, it has loaded. -/
theorem Call.loadedBytes_of_addedBytes {call : Call} {d : Dir} (h : call.addedBytes d ≠ 0) :
    call.loadedBytes d = some (call.addedBytes d) := by
  cases call with
  | opening => exact absurd rfl h
  | closing info stage =>
      cases stage <;> cases d <;> first | rfl | exact absurd rfl h
  | totals => exact absurd rfl h

/-- Only a `close` loads the counters of a connection. -/
theorem Call.exists_closeId {call : Call} {d : Dir} {n : Nat} (h : call.loadedBytes d = some n) :
    ∃ id, call.closeId = some id := by
  cases call with
  | opening => cases h
  | closing info stage => exact ⟨info.id, rfl⟩
  | totals => cases h

/-- A `close` that has taken its connection off the list has loaded both counters. -/
theorem Call.loadedBytes_ne_none {call : Call} (h : call.hasRemoved = true) (d : Dir) :
    call.loadedBytes d ≠ none := by
  cases call with
  | opening => cases h
  | closing info stage => cases stage <;> simp [hasRemoved, loadedBytes] at h ⊢
  | totals => cases h

theorem Call.isReading_of_view {call : Call} {live rest : List ConnectionInfo} {d : Dir} {sum : Nat}
    (h : call.view live d = some (sum, rest)) : call.isReading = true := by
  cases call with
  | opening => cases h
  | closing => cases h
  | totals stage => cases stage <;> first | rfl | cases h

theorem Call.isReading_of_result {call : Call} {d : Dir} {n : Nat} (h : call.result d = some n) :
    call.isReading = true := by
  cases call with
  | opening => cases h
  | closing => cases h
  | totals stage => cases stage <;> first | rfl | cases h

namespace Traffic

open Erbridge.Core (Machine)
open Erbridge.Core.Tally

variable {s t : Traffic} {c id n : Nat} {a b : Call} {r : Registry} {d : Dir}

/-! ### Who is on the list -/

@[simp] theorem calls_setCall : (s.setCall c b r).calls = s.calls.set c b := rfl

@[simp] theorem registry_setCall : (s.setCall c b r).registry = r := rfl

/-- A handle stays with whoever has it. -/
theorem hasHandle_set {t : Traffic} (hpc : s.calls[c]? = some a) (hcalls : t.calls = s.calls.set c b)
    (hopen : b.openId = a.openId) (hopened : a.isOpened = true → b.isOpened = true)
    (h : s.HasHandle id) : t.HasHandle id := by
  rw [HasHandle, hcalls]
  exact exists_mem_set hpc (fun ha => ⟨hopened ha.1, hopen ▸ ha.2⟩) h

theorem hasHandle_append {t : Traffic} (hcalls : t.calls = s.calls ++ [b]) (h : s.HasHandle id) :
    t.HasHandle id := by
  obtain ⟨call, hcall, hid⟩ := h
  exact ⟨call, hcalls ▸ List.mem_append_left _ hcall, hid⟩

/-- Each connection is on the list from the step of its `open` that puts it there to the step of its
`close` that takes it off, and each is opened and closed at most once. -/
structure Shape (s : Traffic) : Prop where
  live_nodup : s.liveIds.Nodup
  live_lt : ∀ id ∈ s.liveIds, id < s.registry.nextId
  opens_nodup : (s.calls.filterMap Call.openId).Nodup
  opens_lt : ∀ call ∈ s.calls, ∀ id, call.openId = some id → id < s.registry.nextId
  unpushed : ∀ call ∈ s.calls, ∀ id, call.openId = some id → call.isPushed = false → id ∉ s.liveIds
  pushed : ∀ call ∈ s.calls, ∀ id, call.openId = some id → call.isPushed = true →
    id ∈ s.liveIds ∨ ∃ other ∈ s.calls, other.closeId = some id ∧ other.hasRemoved = true
  closes_nodup : (s.calls.filterMap Call.closeId).Nodup
  closes_opened : ∀ call ∈ s.calls, ∀ id, call.closeId = some id → s.HasHandle id
  closing : ∀ call ∈ s.calls, ∀ id, call.closeId = some id → call.hasRemoved = false →
    id ∈ s.liveIds

theorem shape_initial : initial.Shape where
  live_nodup := List.nodup_nil
  live_lt := by simp [initial, liveIds, Registry.new]
  opens_nodup := List.nodup_nil
  opens_lt := by simp [initial]
  unpushed := by simp [initial]
  pushed := by simp [initial]
  closes_nodup := List.nodup_nil
  closes_opened := by simp [initial]
  closing := by simp [initial]

/-- Whoever holds a handle has put the connection on the list. -/
theorem Shape.live_or_removed (h : s.Shape) (hid : s.HasHandle id) :
    id ∈ s.liveIds ∨ ∃ other ∈ s.calls, other.closeId = some id ∧ other.hasRemoved = true := by
  obtain ⟨call, hcall, hopened, hopen⟩ := hid
  exact h.pushed call hcall id hopen (Call.isPushed_of_isOpened hopened)

theorem Shape.lt_of_hasHandle (h : s.Shape) (hid : s.HasHandle id) : id < s.registry.nextId := by
  obtain ⟨call, hcall, -, hopen⟩ := hid
  exact h.opens_lt call hcall id hopen

/-- A step that opens, puts on the list, takes off and closes nothing. -/
theorem Shape.set (h : s.Shape) {t : Traffic} (hpc : s.calls[c]? = some a)
    (hcalls : t.calls = s.calls.set c b) (hnext : t.registry.nextId = s.registry.nextId)
    (hlive : t.registry.live = s.registry.live) (hopen : b.openId = a.openId)
    (hclose : b.closeId = a.closeId) (hpushed : b.isPushed = a.isPushed)
    (hopened : a.isOpened = true → b.isOpened = true) (hremoved : b.hasRemoved = a.hasRemoved) :
    t.Shape := by
  have ha := List.mem_of_getElem? hpc
  have hids : t.liveIds = s.liveIds := by rw [liveIds, hlive, liveIds]
  refine ⟨hids ▸ h.live_nodup, fun id hid => ?_, ?_, ?_, ?_, ?_, ?_, ?_, ?_⟩
  · rw [hnext]
    exact h.live_lt id (hids ▸ hid)
  · rw [hcalls, filterMap_set_of_eq hpc hopen]
    exact h.opens_nodup
  · rw [hcalls, hnext]
    exact forall_mem_set h.opens_lt (hopen ▸ h.opens_lt a ha)
  · rw [hcalls, hids]
    exact forall_mem_set h.unpushed (hopen ▸ hpushed ▸ h.unpushed a ha)
  · rw [hcalls, hids]
    have hstays : ∀ id, (∃ other ∈ s.calls, other.closeId = some id ∧ other.hasRemoved = true) →
        ∃ other ∈ s.calls.set c b, other.closeId = some id ∧ other.hasRemoved = true := fun id =>
      exists_mem_set hpc fun hother => ⟨hclose ▸ hother.1, hremoved ▸ hother.2⟩
    refine forall_mem_set (fun call hcall id hid hp => ?_) fun id hid hp => ?_
    · exact (h.pushed call hcall id hid hp).imp_right (hstays id)
    · exact (h.pushed a ha id (hopen ▸ hid) (hpushed ▸ hp)).imp_right (hstays id)
  · rw [hcalls, filterMap_set_of_eq hpc hclose]
    exact h.closes_nodup
  · rw [hcalls]
    refine forall_mem_set (fun call hcall id hid => ?_) fun id hid => ?_
    · exact hasHandle_set hpc hcalls hopen hopened (h.closes_opened call hcall id hid)
    · exact hasHandle_set hpc hcalls hopen hopened (h.closes_opened a ha id (hclose ▸ hid))
  · rw [hcalls, hids]
    exact forall_mem_set h.closing (hclose ▸ hremoved ▸ h.closing a ha)

/-- A call begins: one that opens has an identifier of its own, and one that closes a connection is the
first to do so. -/
theorem Shape.append (h : s.Shape) {t : Traffic} (hcalls : t.calls = s.calls ++ [b])
    (hnext : s.registry.nextId ≤ t.registry.nextId) (hlive : t.registry.live = s.registry.live)
    (hopen : ∀ id, b.openId = some id →
      s.registry.nextId ≤ id ∧ id < t.registry.nextId ∧ b.isPushed = false)
    (hclose : ∀ id, b.closeId = some id → s.HasHandle id ∧ ¬s.IsClosing id) : t.Shape := by
  have hids : t.liveIds = s.liveIds := by rw [liveIds, hlive, liveIds]
  have hall : ∀ {P : Call → Prop}, (∀ call ∈ s.calls, P call) → P b → ∀ call ∈ t.calls, P call := by
    intro P hP hb call hcall
    rw [hcalls] at hcall
    rcases List.mem_append.1 hcall with hcall | hcall
    · exact hP call hcall
    · exact List.mem_singleton.1 hcall ▸ hb
  refine ⟨hids ▸ h.live_nodup, ?_, ?_, ?_, ?_, ?_, ?_, ?_, ?_⟩
  · rw [hids]
    exact fun id hid => (h.live_lt id hid).trans_le hnext
  · rw [hcalls]
    refine nodup_filterMap_concat h.opens_nodup fun id hid call hcall hother => ?_
    exact absurd (h.opens_lt call hcall id hother) (hopen id hid).1.not_gt
  · exact hall (fun call hcall id hid => (h.opens_lt call hcall id hid).trans_le hnext)
      fun id hid => (hopen id hid).2.1
  · rw [hids]
    exact hall h.unpushed fun id hid _ hmem => absurd (h.live_lt id hmem) (hopen id hid).1.not_gt
  · rw [hids]
    refine hall (fun call hcall id hid hp => ?_) fun id hid hp => ?_
    · refine (h.pushed call hcall id hid hp).imp_right ?_
      rintro ⟨other, hother, hrest⟩
      exact ⟨other, hcalls ▸ List.mem_append_left _ hother, hrest⟩
    · rw [(hopen id hid).2.2] at hp
      cases hp
  · rw [hcalls]
    refine nodup_filterMap_concat h.closes_nodup fun id hid call hcall hother => ?_
    exact (hclose id hid).2 ⟨call, hcall, hother⟩
  · exact hall (fun call hcall id hid => hasHandle_append hcalls (h.closes_opened call hcall id hid))
      fun id hid => hasHandle_append hcalls (hclose id hid).1
  · rw [hids]
    refine hall h.closing fun id hid _ => ?_
    refine (h.live_or_removed (hclose id hid).1).resolve_right ?_
    rintro ⟨other, hother, hsame, -⟩
    exact (hclose id hid).2 ⟨other, hother, hsame⟩

theorem mem_liveIds_retain {info : ConnectionInfo} :
    id ∈ (s.setCall c b (s.registry.retain info)).liveIds ↔ id ∈ s.liveIds ∧ id ≠ info.id := by
  simp only [liveIds, registry_setCall, Registry.retain, List.mem_map, List.mem_filter,
    decide_eq_true_eq]
  constructor
  · rintro ⟨x, ⟨hx, hne⟩, rfl⟩
    exact ⟨⟨x, hx, rfl⟩, hne⟩
  · rintro ⟨⟨x, hx, rfl⟩, hne⟩
    exact ⟨x, ⟨hx, hne⟩, rfl⟩

/-- An `open` puts its connection on the list. -/
theorem Shape.push (h : s.Shape) {info : ConnectionInfo}
    (hpc : s.calls[c]? = some (.opening info .counted)) :
    (s.setCall c (.opening info .pushed)
      { s.registry with live := s.registry.live ++ [info] }).Shape := by
  have ha := List.mem_of_getElem? hpc
  have hfresh : info.id ∉ s.liveIds := h.unpushed _ ha info.id rfl rfl
  have hids : (s.setCall c (.opening info .pushed)
      { s.registry with live := s.registry.live ++ [info] }).liveIds = s.liveIds ++ [info.id] :=
    List.map_append
  have hgrow : ∀ id ∈ s.liveIds, id ∈ s.liveIds ++ [info.id] := fun id => List.mem_append_left _
  refine ⟨?_, ?_, ?_, ?_, ?_, ?_, ?_, ?_, ?_⟩
  · rw [hids, ← List.concat_eq_append]
    exact List.Nodup.concat hfresh h.live_nodup
  · rw [hids]
    intro id hid
    rcases List.mem_append.1 hid with hid | hid
    · exact h.live_lt id hid
    · exact List.mem_singleton.1 hid ▸ h.opens_lt _ ha info.id rfl
  · rw [calls_setCall,
      filterMap_set_of_eq (g := Call.openId) (b := .opening info .pushed) hpc rfl]
    exact h.opens_nodup
  · exact forall_mem_set h.opens_lt fun id hid => h.opens_lt _ ha id hid
  · intro call hcall id hid hp
    rw [hids]
    obtain ⟨j, hj⟩ := List.getElem?_of_mem hcall
    rcases getElem?_set_eq_some hj with ⟨-, rfl⟩ | ⟨hne, hold⟩
    · cases hp
    -- another `open`, and so of another identifier
    · have hother : id ≠ info.id := fun heq =>
        hne (eq_of_nodup_filterMap h.opens_nodup hold hpc hid (heq ▸ rfl))
      have hout := h.unpushed call (List.mem_of_getElem? hold) id hid hp
      simp [hout, hother]
  · rw [hids]
    have hstays : ∀ id, (∃ other ∈ s.calls, other.closeId = some id ∧ other.hasRemoved = true) →
        ∃ other ∈ s.calls.set c (.opening info .pushed),
          other.closeId = some id ∧ other.hasRemoved = true := fun id =>
      exists_mem_set hpc fun hother => ⟨hother.1, hother.2⟩
    refine forall_mem_set (fun call hcall id hid hp => ?_) fun id hid _ => ?_
    · exact (h.pushed call hcall id hid hp).imp (hgrow id) (hstays id)
    · cases hid
      exact Or.inl (by simp)
  · rw [calls_setCall,
      filterMap_set_of_eq (g := Call.closeId) (b := .opening info .pushed) hpc rfl]
    exact h.closes_nodup
  · refine forall_mem_set (fun call hcall id hid => ?_) (by rintro id ⟨⟩)
    exact hasHandle_set hpc rfl rfl (fun ho => by cases ho) (h.closes_opened call hcall id hid)
  · rw [hids]
    exact forall_mem_set
      (fun call hcall id hid hr => hgrow id (h.closing call hcall id hid hr)) (by rintro id ⟨⟩)

/-- A `close` takes its connection off the list. -/
theorem Shape.retain (h : s.Shape) {info : ConnectionInfo} {i o : Nat}
    (hpc : s.calls[c]? = some (.closing info (.added i o))) :
    (s.setCall c (.closing info (.removed i o)) (s.registry.retain info)).Shape := by
  have ha := List.mem_of_getElem? hpc
  refine ⟨?_, ?_, ?_, ?_, ?_, ?_, ?_, ?_, ?_⟩
  · exact h.live_nodup.sublist (List.filter_sublist.map _)
  · exact fun id hid => h.live_lt id (mem_liveIds_retain.1 hid).1
  · rw [calls_setCall,
      filterMap_set_of_eq (g := Call.openId) (b := .closing info (.removed i o)) hpc rfl]
    exact h.opens_nodup
  · exact forall_mem_set h.opens_lt (by rintro id ⟨⟩)
  · refine forall_mem_set (fun call hcall id hid hp hmem => ?_) (by rintro id ⟨⟩)
    exact h.unpushed call hcall id hid hp (mem_liveIds_retain.1 hmem).1
  · refine forall_mem_set (fun call hcall id hid hp => ?_) (by rintro id ⟨⟩)
    rcases h.pushed call hcall id hid hp with hlive | hother
    -- what is taken off the list is taken off by this call
    · by_cases heq : id = info.id
      · refine Or.inr ⟨.closing info (.removed i o), ?_, heq ▸ rfl, rfl⟩
        exact List.mem_of_getElem? (List.getElem?_set_self (List.getElem?_eq_some_iff.1 hpc).1)
      · exact Or.inl (mem_liveIds_retain.2 ⟨hlive, heq⟩)
    · exact Or.inr (exists_mem_set hpc (fun hsame => ⟨hsame.1, rfl⟩) hother)
  · rw [calls_setCall,
      filterMap_set_of_eq (g := Call.closeId) (b := .closing info (.removed i o)) hpc rfl]
    exact h.closes_nodup
  · have hhandle : ∀ call ∈ s.calls, ∀ id, call.closeId = some id →
        HasHandle (s.setCall c (.closing info (.removed i o)) (s.registry.retain info)) id :=
      fun call hcall id hid =>
        hasHandle_set hpc rfl rfl (fun ho => by cases ho) (h.closes_opened call hcall id hid)
    exact forall_mem_set hhandle fun id hid => hhandle _ ha id hid
  · intro call hcall id hid hr
    obtain ⟨j, hj⟩ := List.getElem?_of_mem hcall
    rcases getElem?_set_eq_some hj with ⟨-, rfl⟩ | ⟨hne, hold⟩
    · cases hr
    · have hother : id ≠ info.id := fun heq =>
        hne (eq_of_nodup_filterMap h.closes_nodup hold hpc hid (heq ▸ rfl))
      exact mem_liveIds_retain.2 ⟨h.closing call (List.mem_of_getElem? hold) id hid hr, hother⟩

theorem Shape.step {e : Event} (h : s.Shape) (hmove : Moves s e t) : t.Shape := by
  cases hmove with
  | openStart =>
      refine h.append rfl (Nat.le_succ _) rfl ?_ ?_
      · rintro id ⟨⟩
        exact ⟨le_rfl, Nat.lt_succ_self _, rfl⟩
      · rintro id ⟨⟩
  | closeStart hopen hclose =>
      refine h.append rfl le_rfl rfl ?_ ?_
      · rintro id ⟨⟩
      · rintro id ⟨⟩
        exact ⟨⟨_, hopen, rfl, rfl⟩, hclose⟩
  | totalsStart =>
      refine h.append rfl le_rfl rfl ?_ ?_
      · rintro id ⟨⟩
      · rintro id ⟨⟩
  | count => exact ⟨h.1, h.2, h.3, h.4, h.5, h.6, h.7, h.8, h.9⟩
  | quiet hpc halike hnext hlive =>
      exact h.set hpc rfl hnext hlive halike.openId halike.closeId halike.isPushed
        (halike.isOpened ▸ fun ho => ho) halike.hasRemoved
  | push hpc => exact h.push hpc
  | opened hpc => exact h.set hpc rfl rfl rfl rfl rfl rfl (fun _ => rfl) rfl
  | loadOut hpc => exact h.set hpc rfl rfl rfl rfl rfl rfl (fun ho => ho) rfl
  | add hpc hstage =>
      refine h.set hpc rfl rfl rfl rfl rfl rfl (fun ho => ho) ?_
      rcases hstage with ⟨rfl, rfl, -⟩ | ⟨rfl, rfl, -⟩ <;> rfl
  | retain hpc => exact h.retain hpc
  | sum hpc => exact h.set hpc rfl rfl rfl rfl rfl rfl (fun ho => ho) rfl
  | loadTotalIn hpc => exact h.set hpc rfl rfl rfl rfl rfl rfl (fun ho => ho) rfl
  | report hpc => exact h.set hpc rfl rfl rfl rfl rfl rfl (fun ho => ho) rfl

/-! ### What is counted where -/

/-- The bytes of a connection are on the list until its `close` takes it off, which has then added all of
them. -/
structure Counts (s : Traffic) : Prop where
  fresh : ∀ id, ¬s.HasHandle id → ∀ d, s.registry.bytes id d = 0
  loaded : ∀ call ∈ s.calls, ∀ id, call.closeId = some id → ∀ d n, call.loadedBytes d = some n →
    s.registry.bytes id d = n
  split : ∀ d, s.liveSum d + s.removed d = s.counted d
  small : ∀ d, s.counted d < 2 ^ 64

theorem counts_initial : initial.Counts where
  fresh := fun _ _ _ => rfl
  loaded := by simp [initial]
  split := fun _ => rfl
  small := fun d => by simp [counted, initial, Registry.new]

/-- Nothing has been counted on the next identifier. -/
theorem Counts.counted_succ (h : s.Counts) (hshape : s.Shape) (d : Dir) :
    ((List.range (s.registry.nextId + 1)).map fun id => s.registry.bytes id d).sum = s.counted d := by
  have hnone : ¬s.HasHandle s.registry.nextId := fun hid => (hshape.lt_of_hasHandle hid).false
  have hzero := h.fresh _ hnone d
  simp [counted, List.range_succ, hzero]

theorem removed_set (hpc : s.calls[c]? = some a) (hcalls : t.calls = s.calls.set c b) :
    t.removed d + a.removedBytes d = s.removed d + b.removedBytes d := by
  rw [removed, hcalls]
  exact sum_map_set_add _ b hpc

theorem removed_append (hcalls : t.calls = s.calls ++ [b]) :
    t.removed d = s.removed d + b.removedBytes d := by
  rw [removed, hcalls, List.map_append, List.sum_append]
  simp [removed]

theorem sumOf_eq (hbytes : t.registry.bytes = s.registry.bytes) (l : List ConnectionInfo) :
    t.sumOf l d = s.sumOf l d := by
  rw [sumOf, hbytes, sumOf]

theorem sumOf_append (l m : List ConnectionInfo) : s.sumOf (l ++ m) d = s.sumOf l d + s.sumOf m d := by
  simp [sumOf]

theorem counted_eq (hbytes : t.registry.bytes = s.registry.bytes)
    (hnext : t.registry.nextId = s.registry.nextId) : t.counted d = s.counted d := by
  rw [counted, hbytes, hnext, counted]

/-- A connection has not more bytes than all of them. -/
theorem bytes_le_counted (hid : id < s.registry.nextId) : s.registry.bytes id d ≤ s.counted d :=
  List.le_sum_of_mem (List.mem_map.2 ⟨id, List.mem_range.2 hid, rfl⟩)

/-- A step that takes nothing off the list, and loads what there is. -/
theorem Counts.set (h : s.Counts) {t : Traffic} (hpc : s.calls[c]? = some a)
    (hcalls : t.calls = s.calls.set c b) (hnext : t.registry.nextId = s.registry.nextId)
    (hlive : t.registry.live = s.registry.live) (hbytes : t.registry.bytes = s.registry.bytes)
    (hopen : b.openId = a.openId) (hclose : b.closeId = a.closeId)
    (hopened : a.isOpened = true → b.isOpened = true)
    (hloaded : ∀ id, b.closeId = some id → ∀ d n, b.loadedBytes d = some n →
      a.loadedBytes d = some n ∨ s.registry.bytes id d = n)
    (hremoved : ∀ d, b.removedBytes d = a.removedBytes d) : t.Counts := by
  have hsame : ∀ d, t.counted d = s.counted d := fun d => counted_eq hbytes hnext
  refine ⟨fun id hid d => ?_, ?_, fun d => ?_, fun d => ?_⟩
  · rw [hbytes]
    exact h.fresh id (fun hold => hid (hasHandle_set hpc hcalls hopen hopened hold)) d
  · rw [hcalls, hbytes]
    refine forall_mem_set h.loaded fun id hid d n hn => ?_
    rcases hloaded id hid d n hn with hold | hnew
    · exact h.loaded a (List.mem_of_getElem? hpc) id (hclose ▸ hid) d n hold
    · exact hnew
  · have hsum := removed_set (d := d) hpc hcalls
    have hold := h.split d
    rw [hremoved] at hsum
    rw [hsame, liveSum, hlive, sumOf_eq hbytes]
    rw [liveSum] at hold
    omega
  · rw [hsame]
    exact h.small d

/-- A call begins: one that opens has an identifier that has not been used, and one that closes loads
what there is. -/
theorem Counts.append (h : s.Counts) {t : Traffic} (hcalls : t.calls = s.calls ++ [b])
    (hcounted : ∀ d, t.counted d = s.counted d) (hlive : t.registry.live = s.registry.live)
    (hbytes : t.registry.bytes = s.registry.bytes)
    (hloaded : ∀ id, b.closeId = some id → ∀ d n, b.loadedBytes d = some n →
      s.registry.bytes id d = n)
    (hremoved : ∀ d, b.removedBytes d = 0) : t.Counts := by
  refine ⟨fun id hid d => ?_, ?_, fun d => ?_, fun d => ?_⟩
  · rw [hbytes]
    exact h.fresh id (fun hold => hid (hasHandle_append hcalls hold)) d
  · rw [hcalls, hbytes]
    intro call hcall
    rcases List.mem_append.1 hcall with hcall | hcall
    · exact h.loaded call hcall
    · exact List.mem_singleton.1 hcall ▸ hloaded
  · have hold := h.split d
    rw [hcounted, removed_append hcalls, hremoved, liveSum, hlive, sumOf_eq hbytes]
    exact hold
  · rw [hcounted]
    exact h.small d

theorem bytes_count (r : Registry) (hsmall : r.bytes id d + n < 2 ^ 64) (j : Nat) (e : Dir) :
    (r.count id d n).bytes j e = r.bytes j e + if j = id ∧ e = d then n else 0 := by
  by_cases hj : j = id
  · subst hj
    by_cases he : e = d
    · subst he
      simpa [Registry.count, addU64] using hsmall
    · simp [Registry.count, he]
  · simp [Registry.count, hj]

/-- What is counted on a connection joins the sum over connections that it is one of. -/
theorem sum_bytes_count {α : Type*} {l : List α} (key : α → Nat) (r : Registry)
    (hsmall : r.bytes id d + n < 2 ^ 64) (hl : (l.map key).Nodup) (hmem : 0 < n → id ∈ l.map key)
    (e : Dir) :
    (l.map fun x => (r.count id d n).bytes (key x) e).sum =
      (l.map fun x => r.bytes (key x) e).sum + if e = d then n else 0 := by
  have hbytes := bytes_count r hsmall
  by_cases hchange : e = d ∧ 0 < n
  · obtain ⟨rfl, hn⟩ := hchange
    rw [if_pos rfl]
    refine sum_map_key_add (f := fun j => r.bytes j e) (g := fun j => (r.count id e n).bytes j e) hl
      (hmem hn) ?_ fun j hj => ?_
    · simp [hbytes]
    · simp [hbytes, hj]
  · have hzero : ∀ j, (if j = id ∧ e = d then n else 0) = 0 := fun j => by
      rcases Nat.eq_zero_or_pos n with rfl | hn
      · simp
      · exact if_neg fun hj => hchange ⟨hj.2, hn⟩
    have hnone : (if e = d then n else 0) = 0 := by simpa using hzero id
    simp only [hbytes, hzero, hnone, Nat.add_zero]

/-- A counter does not wrap while all of them together would not. -/
theorem fits_of_careful (hshape : s.Shape) (hhandle : s.HasHandle id)
    (hcareful : s.Careful (.count id d n)) : s.registry.bytes id d + n < 2 ^ 64 := by
  have hle := bytes_le_counted (d := d) (hshape.lt_of_hasHandle hhandle)
  have hfits := hcareful.1
  omega

/-- Bytes are counted on a connection that is on the list, before its `close` has loaded them. -/
theorem Counts.count (h : s.Counts) (hshape : s.Shape) (hhandle : s.HasHandle id)
    (hcareful : s.Careful (.count id d n)) :
    Counts { s with registry := s.registry.count id d n } := by
  have hid := hshape.lt_of_hasHandle hhandle
  have hsmall := fits_of_careful hshape hhandle hcareful
  -- Off the list, its bytes would have been loaded by a `close`.
  have hlive : 0 < n → id ∈ s.liveIds := fun hn => by
    refine (hshape.live_or_removed hhandle).resolve_right ?_
    rintro ⟨other, hother, hclose, hremoved⟩
    exact Call.loadedBytes_ne_none hremoved d (hcareful.2 hn other hother hclose)
  have hbytes := bytes_count s.registry hsmall
  have hrange : 0 < n → id ∈ (List.range s.registry.nextId).map fun j => j := fun _ => by
    simpa using hid
  have hcounted : ∀ e, counted { s with registry := s.registry.count id d n } e =
      s.counted e + if e = d then n else 0 :=
    sum_bytes_count (fun j => j) s.registry hsmall (by simpa using List.nodup_range) hrange
  have hsum : ∀ e, liveSum { s with registry := s.registry.count id d n } e =
      s.liveSum e + if e = d then n else 0 :=
    sum_bytes_count ConnectionInfo.id s.registry hsmall hshape.live_nodup hlive
  refine ⟨fun j hj e => ?_, fun call hcall j hj e m hm => ?_, fun e => ?_, fun e => ?_⟩
  · have hne : j ≠ id := fun heq => hj (heq ▸ hhandle)
    simpa [hbytes, hne] using h.fresh j hj e
  · have hold := h.loaded call hcall j hj e m hm
    have hnone : (if j = id ∧ e = d then n else 0) = 0 := by
      split
      · rename_i hsame
        obtain ⟨rfl, rfl⟩ := hsame
        by_contra hn
        rw [hcareful.2 (Nat.pos_of_ne_zero hn) call hcall hj] at hm
        cases hm
      · rfl
    rw [hbytes, hnone, Nat.add_zero]
    exact hold
  · have hold := h.split e
    have hrem : removed { s with registry := s.registry.count id d n } e = s.removed e := rfl
    rw [hcounted, hsum, hrem]
    omega
  · rw [hcounted]
    split
    · rename_i he
      exact he ▸ hcareful.1
    · exact h.small e

/-- An `open` puts a connection on the list on which nothing has been counted. -/
theorem Counts.push (h : s.Counts) (hshape : s.Shape) {info : ConnectionInfo}
    (hpc : s.calls[c]? = some (.opening info .counted)) :
    (s.setCall c (.opening info .pushed)
      { s.registry with live := s.registry.live ++ [info] }).Counts := by
  -- The handle is given out by this call, which has not returned.
  have hnone : ¬s.HasHandle info.id := by
    rintro ⟨call, hcall, hopened, hid⟩
    obtain ⟨j, hj⟩ := List.getElem?_of_mem hcall
    obtain rfl := eq_of_nodup_filterMap hshape.opens_nodup hj hpc hid rfl
    rw [hpc] at hj
    cases hj
    cases hopened
  refine ⟨fun id hid d => ?_, ?_, fun d => ?_, h.small⟩
  · exact h.fresh id (fun hold => hid (hasHandle_set hpc rfl rfl (fun ho => by cases ho) hold)) d
  · exact forall_mem_set h.loaded (by rintro id ⟨⟩)
  · have hsum := removed_set (d := d) hpc (t := s.setCall c (.opening info .pushed)
      { s.registry with live := s.registry.live ++ [info] }) rfl
    have hold := h.split d
    have hlive : liveSum (s.setCall c (.opening info .pushed)
        { s.registry with live := s.registry.live ++ [info] }) d =
        s.liveSum d + s.registry.bytes info.id d := by
      simp [liveSum, sumOf]
    rw [hlive, h.fresh info.id hnone d]
    exact (congrArg (s.liveSum d + ·) hsum).trans hold

/-- A `close` takes its connection off the list, of which it has added all bytes. -/
theorem Counts.retain (h : s.Counts) (hshape : s.Shape) {info : ConnectionInfo} {i o : Nat}
    (hpc : s.calls[c]? = some (.closing info (.added i o))) :
    (s.setCall c (.closing info (.removed i o)) (s.registry.retain info)).Counts := by
  have ha := List.mem_of_getElem? hpc
  refine ⟨fun id hid d => ?_, ?_, fun d => ?_, h.small⟩
  · exact h.fresh id (fun hold => hid (hasHandle_set hpc rfl rfl (fun ho => by cases ho) hold)) d
  · exact forall_mem_set h.loaded fun id hid => h.loaded _ ha id hid
  · have hsum := removed_set (d := d) hpc
      (t := s.setCall c (.closing info (.removed i o)) (s.registry.retain info)) rfl
    have hold := h.split d
    obtain ⟨x, hx, hid⟩ := List.mem_map.1 (hshape.closing _ ha info.id rfl rfl)
    have hall : s.registry.bytes info.id d = pick d i o := h.loaded _ ha info.id rfl d _ rfl
    have hlive : liveSum (s.setCall c (.closing info (.removed i o)) (s.registry.retain info)) d +
        pick d i o = s.liveSum d := by
      have hkeys := sum_map_filter_key_add (fun y => s.registry.bytes y.id d) hshape.live_nodup hx
      rw [hid, hall] at hkeys
      exact hkeys
    have hadded : removed (s.setCall c (.closing info (.removed i o)) (s.registry.retain info)) d =
        s.removed d + pick d i o := hsum
    have hcounted : counted (s.setCall c (.closing info (.removed i o)) (s.registry.retain info)) d =
        s.counted d := rfl
    omega

theorem Counts.step {e : Event} (h : s.Counts) (hshape : s.Shape) (hcareful : s.Careful e)
    (hmove : Moves s e t) : t.Counts := by
  cases hmove with
  | openStart =>
      exact h.append rfl (fun d => h.counted_succ hshape d) rfl rfl (by rintro id ⟨⟩) fun d => rfl
  | closeStart =>
      refine h.append rfl (fun d => rfl) rfl rfl ?_ fun d => rfl
      rintro id ⟨⟩ d n hn
      cases d <;> cases hn
      rfl
  | totalsStart => exact h.append rfl (fun d => rfl) rfl rfl (by rintro id ⟨⟩) fun d => rfl
  | count hhandle => exact h.count hshape hhandle hcareful
  | quiet hpc halike hnext hlive hbytes =>
      exact h.set hpc rfl hnext hlive hbytes halike.openId halike.closeId
        (halike.isOpened ▸ fun ho => ho) (fun id _ d n hn => Or.inl (halike.loaded d ▸ hn))
        halike.removed
  | push hpc => exact h.push hshape hpc
  | opened hpc =>
      exact h.set hpc rfl rfl rfl rfl rfl rfl (fun _ => rfl) (by rintro id ⟨⟩) fun d => rfl
  | loadOut hpc =>
      refine h.set hpc rfl rfl rfl rfl rfl rfl (fun ho => ho) ?_ fun d => rfl
      rintro id ⟨⟩ d n hn
      cases d with
      | bytesIn => exact Or.inl hn
      | bytesOut => exact Or.inr (Option.some.inj hn)
  | add hpc hstage =>
      rcases hstage with ⟨rfl, rfl, -⟩ | ⟨rfl, rfl, -⟩
      · exact h.set hpc rfl rfl rfl rfl rfl rfl (fun ho => ho) (fun id _ d n hn => Or.inl hn)
          fun d => rfl
      · exact h.set hpc rfl rfl rfl rfl rfl rfl (fun ho => ho) (fun id _ d n hn => Or.inl hn)
          fun d => rfl
  | retain hpc => exact h.retain hshape hpc
  | sum hpc =>
      exact h.set hpc rfl rfl rfl rfl rfl rfl (fun ho => ho) (by rintro id ⟨⟩) fun d => rfl
  | loadTotalIn hpc =>
      exact h.set hpc rfl rfl rfl rfl rfl rfl (fun ho => ho) (by rintro id ⟨⟩) fun d => rfl
  | report hpc =>
      exact h.set hpc rfl rfl rfl rfl rfl rfl (fun ho => ho) (by rintro id ⟨⟩) fun d => rfl

/-- No more is added than is counted. -/
theorem added_le_counted (hshape : s.Shape) (h : s.Counts) (d : Dir) : s.added d ≤ s.counted d := by
  have hkeys : s.added d ≤ ((s.calls.filterMap Call.closeId).map fun id => s.registry.bytes id d).sum := by
    refine sum_map_le_filterMap fun call hcall hne => ?_
    have hloaded := Call.loadedBytes_of_addedBytes hne
    obtain ⟨id, hid⟩ := Call.exists_closeId hloaded
    exact ⟨id, hid, (h.loaded call hcall id hid d _ hloaded).ge⟩
  refine hkeys.trans (sum_map_le_of_nodup _ hshape.closes_nodup fun id hid => ?_)
  obtain ⟨call, hcall, hclose⟩ := List.mem_filterMap.1 hid
  exact List.mem_range.2 (hshape.lt_of_hasHandle (hshape.closes_opened call hcall id hclose))

/-- The totals are what the closes have added. -/
def Totalled (s : Traffic) : Prop := ∀ d, s.registry.totalBytes d = s.added d

theorem added_set (hpc : s.calls[c]? = some a) (hcalls : t.calls = s.calls.set c b) :
    t.added d + a.addedBytes d = s.added d + b.addedBytes d := by
  rw [added, hcalls]
  exact sum_map_set_add _ b hpc

/-- A step that adds nothing to the totals. -/
theorem Totalled.set (h : s.Totalled) {t : Traffic} (hpc : s.calls[c]? = some a)
    (hcalls : t.calls = s.calls.set c b) (htotal : t.registry.totalBytes = s.registry.totalBytes)
    (hadded : ∀ d, b.addedBytes d = a.addedBytes d) : t.Totalled := by
  intro d
  have hsum := added_set (d := d) hpc hcalls
  rw [hadded] at hsum
  rw [htotal, h d]
  omega

theorem Totalled.append (h : s.Totalled) {t : Traffic} (hcalls : t.calls = s.calls ++ [b])
    (htotal : t.registry.totalBytes = s.registry.totalBytes) (hadded : ∀ d, b.addedBytes d = 0) :
    t.Totalled := by
  intro d
  rw [htotal, h d, added, added, hcalls, List.map_append, List.sum_append]
  simp [hadded]

theorem Totalled.step {e : Event} (h : s.Totalled) (hshape : t.Shape) (hcounts : t.Counts)
    (hmove : Moves s e t) : t.Totalled := by
  cases hmove with
  | openStart => exact h.append rfl rfl fun d => rfl
  | closeStart => exact h.append rfl rfl fun d => rfl
  | totalsStart => exact h.append rfl rfl fun d => rfl
  | count => exact h
  | quiet hpc halike hnext hlive hbytes htotal => exact h.set hpc rfl htotal halike.added
  | push hpc => exact h.set hpc rfl rfl fun d => rfl
  | opened hpc => exact h.set hpc rfl rfl fun d => rfl
  | loadOut hpc => exact h.set hpc rfl rfl fun d => rfl
  | @add c i o d info before after hpc hstage =>
      intro e
      have hsum := added_set (d := e) hpc (t := s.setCall c (.closing info after)
        (s.registry.addTotal d (pick d i o))) rfl
      have hstep : (Call.closing info after).addedBytes e =
          (Call.closing info before).addedBytes e + if e = d then pick d i o else 0 := by
        rcases hstage with ⟨rfl, rfl, rfl⟩ | ⟨rfl, rfl, rfl⟩ <;>
          cases e <;> simp [Call.addedBytes, pick]
      have hle := (added_le_counted hshape hcounts e).trans_lt (hcounts.small e)
      rw [hstep] at hsum
      rw [registry_setCall, Registry.totalBytes_addTotal]
      by_cases he : e = d
      · subst he
        rw [if_pos rfl] at hsum ⊢
        rw [addU64, h e, Nat.mod_eq_of_lt (by omega)]
        omega
      · rw [if_neg he] at hsum ⊢
        rw [h e]
        omega
  | retain hpc => exact h.set hpc rfl rfl fun d => rfl
  | sum hpc => exact h.set hpc rfl rfl fun d => rfl
  | loadTotalIn hpc => exact h.set hpc rfl rfl fun d => rfl
  | report hpc => exact h.set hpc rfl rfl fun d => rfl

/-! ### What the readers have got so far -/

/-- Only the `totals` that holds the lock is under way. -/
def Locked (s : Traffic) : Prop :=
  ∀ c call, s.calls[c]? = some call → call.isReading = true → s.lock = some c

theorem Locked.not_reading (h : s.Locked) (hlock : s.lock = none) {call : Call}
    (hcall : call ∈ s.calls) : ¬call.isReading = true := by
  intro hreading
  obtain ⟨j, hj⟩ := List.getElem?_of_mem hcall
  have hheld := h j call hj hreading
  rw [hlock] at hheld
  cases hheld

theorem Locked.set (h : s.Locked) {t : Traffic} (hpc : s.calls[c]? = some a)
    (hcalls : t.calls = s.calls.set c b) (hlock : t.lock = s.lock)
    (hreading : b.isReading = true → a.isReading = true) : t.Locked := by
  intro j call hj hr
  rw [hlock]
  rw [hcalls] at hj
  rcases getElem?_set_eq_some hj with ⟨rfl, rfl⟩ | ⟨-, hold⟩
  · exact h j a hpc (hreading hr)
  · exact h j call hold hr

/-- A call begins that needs no lock. -/
theorem Locked.append (h : s.Locked) {t : Traffic} (hcalls : t.calls = s.calls ++ [b])
    (hlock : t.lock = s.lock) (hreading : b.isReading = false) : t.Locked := by
  intro j call hj hr
  rw [hlock]
  rw [hcalls] at hj
  rcases getElem?_concat_eq_some hj with hold | ⟨-, rfl⟩
  · exact h j call hold hr
  · rw [hreading] at hr
    cases hr

theorem Locked.step {e : Event} (h : s.Locked) (hmove : Moves s e t) : t.Locked := by
  cases hmove with
  | openStart => exact h.append rfl rfl rfl
  | closeStart => exact h.append rfl rfl rfl
  | totalsStart hlock =>
      intro j call hj hr
      rcases getElem?_concat_eq_some hj with hold | ⟨rfl, -⟩
      · exact absurd hr (h.not_reading hlock (List.mem_of_getElem? hold))
      · rfl
  | count => exact h
  | quiet hpc halike => exact h.set hpc rfl rfl (halike.isReading ▸ fun hr => hr)
  | push hpc => exact h.set hpc rfl rfl fun hr => by cases hr
  | opened hpc => exact h.set hpc rfl rfl fun hr => by cases hr
  | loadOut hpc => exact h.set hpc rfl rfl fun hr => by cases hr
  | add hpc => exact h.set hpc rfl rfl fun hr => by cases hr
  | retain hpc => exact h.set hpc rfl rfl fun hr => by cases hr
  | sum hpc hreading hbefore => exact h.set hpc rfl rfl fun _ => Call.isReading_of_view hbefore
  | loadTotalIn hpc => exact h.set hpc rfl rfl fun _ => rfl
  | @report c n i o u hpc =>
      intro j call hj hr
      rcases getElem?_set_eq_some hj with ⟨rfl, rfl⟩ | ⟨hne, hold⟩
      · cases hr
      · -- Two `totals` would hold the lock.
        have hmine := h c _ hpc rfl
        rw [h j call hold hr] at hmine
        exact absurd (Option.some.inj hmine) hne

/-- What a `totals` has got of the sum: no more than there is, and no less than was reported before, with
what is still to come. -/
structure Viewed (s : Traffic) (d : Dir) (sum : Nat) (rest : List ConnectionInfo) : Prop where
  split : ∃ front, s.registry.live = front ++ rest ∧ sum ≤ s.sumOf front d
  reports : ∀ u ∈ s.reports, u.bytes d ≤ sum + s.sumOf rest d + s.removed d

structure Readers (s : Traffic) : Prop where
  bounded : ∀ u ∈ s.reports, ∀ d, u.bytes d ≤ s.counted d
  monotone : s.reports.Pairwise fun u v => ∀ d, u.bytes d ≤ v.bytes d
  view : ∀ call ∈ s.calls, ∀ d sum rest, call.view s.registry.live d = some (sum, rest) →
    s.Viewed d sum rest
  result : ∀ call ∈ s.calls, ∀ d m, call.result d = some m →
    m ≤ s.counted d ∧ ∀ u ∈ s.reports, u.bytes d ≤ m

theorem readers_initial : initial.Readers where
  bounded := by simp [initial]
  monotone := List.Pairwise.nil
  view := by simp [initial]
  result := by simp [initial]

theorem Viewed.sum_le {l : List ConnectionInfo} (h : s.Viewed d n l) :
    n + s.sumOf l d ≤ s.liveSum d := by
  obtain ⟨front, hlive, hle⟩ := h.split
  rw [liveSum, hlive, sumOf_append]
  omega

/-- Nothing has been looked at yet. -/
theorem Viewed.start (h : s.Readers) (hcounts : s.Counts) (d : Dir) :
    s.Viewed d 0 s.registry.live where
  split := ⟨[], rfl, Nat.zero_le _⟩
  reports := fun u hu => by
    have hle := h.bounded u hu d
    have hsplit := hcounts.split d
    rw [liveSum] at hsplit
    omega

/-- One more connection has been looked at. -/
theorem Viewed.next {x : ConnectionInfo} {rest : List ConnectionInfo} (h : s.Viewed d n (x :: rest))
    (hcounts : s.Counts) : s.Viewed d (addU64 n (s.registry.bytes x.id d)) rest := by
  have hcons : s.sumOf (x :: rest) d = s.registry.bytes x.id d + s.sumOf rest d := by simp [sumOf]
  have hle := h.sum_le
  have hsmall := hcounts.small d
  have hsplit := hcounts.split d
  rw [hcons] at hle
  -- the sum is one over a part of the list, so it does not wrap
  rw [addU64, Nat.mod_eq_of_lt (by omega)]
  refine ⟨?_, fun u hu => ?_⟩
  · obtain ⟨front, hlive, hfront⟩ := h.split
    refine ⟨front ++ [x], by simp [hlive], ?_⟩
    have hone : s.sumOf [x] d = s.registry.bytes x.id d := by simp [sumOf]
    rw [sumOf_append, hone]
    omega
  · have hreport := h.reports u hu
    rw [hcons] at hreport
    omega

/-- Where no connection on the list has had its bytes added, the total is that of the others. -/
theorem totalBytes_of_settled (h : s.Totalled) (hsettled : s.Settled d) :
    s.registry.totalBytes d = s.removed d := by
  rw [h d, added, removed, List.map_congr_left hsettled]

/-- The sum over the list is complete, and the total is loaded: neither is too much or too little. -/
theorem Viewed.total (h : s.Viewed d n []) (hcounts : s.Counts) (htotal : s.Totalled)
    (hsettled : s.Settled d) :
    addU64 (s.registry.totalBytes d) n ≤ s.counted d ∧
      ∀ u ∈ s.reports, u.bytes d ≤ addU64 (s.registry.totalBytes d) n := by
  have hle := h.sum_le
  have hsplit := hcounts.split d
  have hsmall := hcounts.small d
  have hnil : s.sumOf [] d = 0 := rfl
  rw [hnil] at hle
  rw [totalBytes_of_settled htotal hsettled, addU64, Nat.mod_eq_of_lt (by omega)]
  refine ⟨by omega, fun u hu => ?_⟩
  have hreport := h.reports u hu
  rw [hnil] at hreport
  omega

theorem Viewed.congr {t : Traffic} {rest : List ConnectionInfo} (h : s.Viewed d n rest)
    (hlive : t.registry.live = s.registry.live) (hbytes : t.registry.bytes = s.registry.bytes)
    (hreports : t.reports = s.reports) (hremoved : t.removed d = s.removed d) :
    t.Viewed d n rest := by
  refine ⟨?_, fun u hu => ?_⟩
  · obtain ⟨front, hfront, hle⟩ := h.split
    exact ⟨front, hlive ▸ hfront, (sumOf_eq hbytes front).symm ▸ hle⟩
  · rw [sumOf_eq hbytes, hremoved]
    exact h.reports u (hreports ▸ hu)

/-- A step that changes neither the list nor what is counted. -/
theorem Readers.set (h : s.Readers) {t : Traffic} (hpc : s.calls[c]? = some a)
    (hcalls : t.calls = s.calls.set c b) (hnext : t.registry.nextId = s.registry.nextId)
    (hlive : t.registry.live = s.registry.live) (hbytes : t.registry.bytes = s.registry.bytes)
    (hreports : t.reports = s.reports) (hremoved : ∀ d, b.removedBytes d = a.removedBytes d)
    (hview : ∀ d sum rest, b.view s.registry.live d = some (sum, rest) → s.Viewed d sum rest)
    (hresult : ∀ d m, b.result d = some m → m ≤ s.counted d ∧ ∀ u ∈ s.reports, u.bytes d ≤ m) :
    t.Readers := by
  have hcounted : ∀ d, t.counted d = s.counted d := fun d => counted_eq hbytes hnext
  have hsame : ∀ d, t.removed d = s.removed d := fun d => by
    have hsum := removed_set (d := d) hpc hcalls
    rw [hremoved] at hsum
    omega
  refine ⟨fun u hu d => ?_, ?_, ?_, ?_⟩
  · rw [hcounted]
    exact h.bounded u (hreports ▸ hu) d
  · rw [hreports]
    exact h.monotone
  · intro call hcall d sum rest hv
    rw [hlive] at hv
    rw [hcalls] at hcall
    have hold : s.Viewed d sum rest :=
      forall_mem_set h.view hview call hcall d sum rest hv
    exact hold.congr hlive hbytes hreports (hsame d)
  · rw [hcalls, hreports]
    refine forall_mem_set (fun call hcall d m hm => ?_) fun d m hm => ?_
    · rw [hcounted]
      exact h.result call hcall d m hm
    · rw [hcounted]
      exact hresult d m hm

/-- A step while nobody holds the lock. -/
theorem Readers.of_not_reading (h : s.Readers) {t : Traffic}
    (hcounted : ∀ d, t.counted d = s.counted d) (hreports : t.reports = s.reports)
    (hnone : ∀ call ∈ t.calls, ¬call.isReading = true) : t.Readers where
  bounded := fun u hu d => hcounted d ▸ h.bounded u (hreports ▸ hu) d
  monotone := hreports ▸ h.monotone
  view := fun call hcall _ _ _ hv => absurd (Call.isReading_of_view hv) (hnone call hcall)
  result := fun call hcall _ _ hm => absurd (Call.isReading_of_result hm) (hnone call hcall)

/-- A call begins. -/
theorem Readers.append (h : s.Readers) {t : Traffic} (hcalls : t.calls = s.calls ++ [b])
    (hcounted : ∀ d, t.counted d = s.counted d) (hlive : t.registry.live = s.registry.live)
    (hbytes : t.registry.bytes = s.registry.bytes) (hreports : t.reports = s.reports)
    (hremoved : ∀ d, b.removedBytes d = 0)
    (hview : ∀ d sum rest, b.view s.registry.live d = some (sum, rest) → s.Viewed d sum rest)
    (hresult : ∀ d, b.result d = none) : t.Readers := by
  have hsame : ∀ d, t.removed d = s.removed d := fun d => by rw [removed_append hcalls, hremoved]; rfl
  refine ⟨fun u hu d => ?_, ?_, ?_, ?_⟩
  · rw [hcounted]
    exact h.bounded u (hreports ▸ hu) d
  · rw [hreports]
    exact h.monotone
  · intro call hcall d sum rest hv
    rw [hlive] at hv
    rw [hcalls] at hcall
    have hold : s.Viewed d sum rest := by
      rcases List.mem_append.1 hcall with hcall | hcall
      · exact h.view call hcall d sum rest hv
      · exact hview d sum rest (List.mem_singleton.1 hcall ▸ hv)
    exact hold.congr hlive hbytes hreports (hsame d)
  · rw [hcalls, hreports]
    intro call hcall d m hm
    rw [hcounted]
    rcases List.mem_append.1 hcall with hcall | hcall
    · exact h.result call hcall d m hm
    · rw [List.mem_singleton.1 hcall, hresult] at hm
      cases hm

/-- Counting makes what is there and what is still to come only more. -/
theorem Readers.count (h : s.Readers)
    (hmore : ∀ j e, s.registry.bytes j e ≤ (s.registry.count id d n).bytes j e) :
    Readers { s with registry := s.registry.count id d n } := by
  have hsum : ∀ l e, s.sumOf l e ≤ sumOf { s with registry := s.registry.count id d n } l e :=
    fun l e => List.sum_le_sum fun x _ => hmore x.id e
  have hcounted : ∀ e, s.counted e ≤ counted { s with registry := s.registry.count id d n } e :=
    fun e => List.sum_le_sum fun j _ => hmore j e
  refine ⟨fun u hu e => (h.bounded u hu e).trans (hcounted e), h.monotone, ?_, ?_⟩
  · intro call hcall e sum rest hv
    have hold := h.view call hcall e sum rest hv
    refine ⟨?_, fun u hu => ?_⟩
    · obtain ⟨front, hlive, hle⟩ := hold.split
      exact ⟨front, hlive, hle.trans (hsum front e)⟩
    · have hreport := hold.reports u hu
      have hrest := hsum rest e
      have hrem : removed { s with registry := s.registry.count id d n } e = s.removed e := rfl
      omega
  · intro call hcall e m hm
    exact (h.result call hcall e m hm).imp_left fun hle => hle.trans (hcounted e)

/-- A `totals` returns: it has got a value for each direction that is neither too much nor too little. -/
theorem Readers.report (h : s.Readers) (hcounts : s.Counts) (htotal : s.Totalled) (hlocked : s.Locked)
    {m i o : Nat} {u : Totals} (hpc : s.calls[c]? = some (.totals (.loadedIn m i o)))
    (hin : u.bytesIn = i) (hout : u.bytesOut = addU64 (s.registry.totalBytes .bytesOut) o)
    (hsettled : s.Settled .bytesOut) (hmove : Moves s (.next c)
      { s.setCall c (.totals (.reported u)) s.registry with
        lock := none
        reports := s.reports ++ [u] }) :
    Readers { s.setCall c (.totals (.reported u)) s.registry with
      lock := none
      reports := s.reports ++ [u] } := by
  have ha := List.mem_of_getElem? hpc
  -- The total of the bytes in was loaded before, that of the bytes out in this step.
  have hbytes : ∀ d, u.bytes d ≤ s.counted d ∧ ∀ v ∈ s.reports, v.bytes d ≤ u.bytes d := by
    intro d
    cases d with
    | bytesIn =>
        have hres := h.result _ ha .bytesIn i rfl
        rw [← hin] at hres
        exact hres
    | bytesOut =>
        have htot := (h.view _ ha .bytesOut o [] rfl).total hcounts htotal hsettled
        rw [← hout] at htot
        exact htot
  have hnone := fun call (hcall : call ∈ _) => (hlocked.step hmove).not_reading rfl hcall
  refine ⟨fun v hv d => ?_, ?_, fun call hcall d sum rest hview => ?_, fun call hcall d m hm => ?_⟩
  · rcases List.mem_append.1 hv with hv | hv
    · exact h.bounded v hv d
    · exact List.mem_singleton.1 hv ▸ (hbytes d).1
  · refine List.pairwise_append.2 ⟨h.monotone, List.pairwise_singleton _ _, fun v hv w hw d => ?_⟩
    exact List.mem_singleton.1 hw ▸ (hbytes d).2 v hv
  · exact absurd (Call.isReading_of_view hview) (hnone call hcall)
  · exact absurd (Call.isReading_of_result hm) (hnone call hcall)

theorem Readers.step {e : Event} (h : s.Readers) (hshape : s.Shape) (hcounts : s.Counts)
    (htotal : s.Totalled) (hlocked : s.Locked) (hcareful : s.Careful e)
    (hmove : Moves s e t) : t.Readers := by
  have hafter := hlocked.step hmove
  cases hmove with
  | openStart =>
      exact h.append rfl (fun d => hcounts.counted_succ hshape d) rfl rfl rfl (fun d => rfl)
        (fun d sum rest hv => by cases hv) fun d => rfl
  | closeStart =>
      exact h.append rfl (fun d => rfl) rfl rfl rfl (fun d => rfl)
        (fun d sum rest hv => by cases hv) fun d => rfl
  | totalsStart =>
      refine h.append rfl (fun d => rfl) rfl rfl rfl (fun d => rfl) (fun d sum rest hv => ?_) fun d => ?_
      · cases d <;> cases hv <;> exact Viewed.start h hcounts _
      · cases d <;> rfl
  | count hhandle =>
      refine h.count fun j e => ?_
      rw [bytes_count _ (fits_of_careful hshape hhandle hcareful)]
      exact Nat.le_add_right _ _
  | quiet hpc halike hnext hlive hbytes =>
      have ha := List.mem_of_getElem? hpc
      exact h.set hpc rfl hnext hlive hbytes rfl halike.removed
        (fun d sum rest hv => h.view _ ha d sum rest (halike.view d ▸ hv))
        fun d m hm => h.result _ ha d m (halike.result d ▸ hm)
  | push hpc hlock =>
      exact h.of_not_reading (fun d => rfl) rfl fun call hcall => hafter.not_reading hlock hcall
  | opened hpc =>
      exact h.set hpc rfl rfl rfl rfl rfl (fun d => rfl) (fun d sum rest hv => by cases hv)
        fun d m hm => by cases hm
  | loadOut hpc =>
      exact h.set hpc rfl rfl rfl rfl rfl (fun d => rfl) (fun d sum rest hv => by cases hv)
        fun d m hm => by cases hm
  | add hpc hstage =>
      refine h.set hpc rfl rfl rfl rfl rfl (fun d => ?_) (fun d sum rest hv => by cases hv)
        fun d m hm => by cases hm
      rcases hstage with ⟨rfl, rfl, -⟩ | ⟨rfl, rfl, -⟩ <;> rfl
  | retain hpc hlock =>
      exact h.of_not_reading (fun d => rfl) rfl fun call hcall => hafter.not_reading hlock hcall
  | @sum c n d x rest a b hpc _ hbefore hbehind hother hresult =>
      have ha := List.mem_of_getElem? hpc
      refine h.set hpc rfl rfl rfl rfl rfl (fun d => rfl) (fun e m l hv => ?_) fun e m hm => ?_
      · by_cases he : e = d
        · subst he
          rw [hbehind] at hv
          cases hv
          exact (h.view _ ha e n (x :: rest) hbefore).next hcounts
        · exact h.view _ ha e m l (hother e he ▸ hv)
      · rw [hresult] at hm
        cases hm
  | @loadTotalIn c m i o hpc =>
      have ha := List.mem_of_getElem? hpc
      refine h.set hpc rfl rfl rfl rfl rfl (fun d => rfl) (fun d sum rest hv => ?_) fun d k hk => ?_
      · cases d with
        | bytesIn => cases hv
        | bytesOut => exact h.view _ ha .bytesOut sum rest hv
      · cases d with
        | bytesIn =>
            cases hk
            exact (h.view _ ha .bytesIn i [] rfl).total hcounts htotal (hcareful _ hpc .bytesIn rfl)
        | bytesOut => cases hk
  | @report c m i o u hpc hin hout =>
      exact h.report hcounts htotal hlocked hpc hin hout (hcareful _ hpc .bytesOut rfl)
        (Moves.report hpc hin hout)

/-! ### Runs -/

structure Books (s : Traffic) : Prop where
  shape : s.Shape
  counts : s.Counts
  totalled : s.Totalled
  locked : s.Locked
  readers : s.Readers

theorem books_initial : initial.Books where
  shape := shape_initial
  counts := counts_initial
  totalled := fun _ => rfl
  locked := fun c call hcall => by simp [initial] at hcall
  readers := readers_initial

theorem Books.step {e : Event} (h : s.Books) (hcareful : s.Careful e)
    (hstep : machine.step s e = some t) : t.Books := by
  have hmove := moves_of_step hstep
  have hshape := h.shape.step hmove
  have hcounts := h.counts.step h.shape hcareful hmove
  exact ⟨hshape, hcounts, h.totalled.step hshape hcounts hmove, h.locked.step hmove,
    h.readers.step h.shape h.counts h.totalled h.locked hcareful hmove⟩

theorem books_of_run {es : List Event} (hmeets : machine.Meets Careful initial es)
    (hrun : machine.run initial es = some s) : s.Books :=
  machine.run_invariant_of_meets Books (fun h hcareful hstep => h.step hcareful hstep) books_initial
    hmeets hrun

theorem sumU64_eq {values : List Nat} (hsmall : values.sum < 2 ^ 64) : sumU64 values = values.sum := by
  have hfold : ∀ (values : List Nat) (n : Nat), n + values.sum < 2 ^ 64 →
      values.foldl addU64 n = n + values.sum := by
    -- the accumulator and what is left never add up to more than at the start
    intro values
    induction values with
    | nil => exact fun n _ => rfl
    | cons v values ih =>
        intro n hn
        rw [List.sum_cons] at hn ⊢
        rw [List.foldl_cons, addU64, Nat.mod_eq_of_lt (by omega), ih _ (by omega)]
        omega
  rw [sumU64, hfold values 0 (by omega), Nat.zero_add]

/-- A call that has returned has taken off the list what it has added. -/
theorem settled_of_done (h : ∀ call ∈ s.calls, call.isDone = true) (d : Dir) : s.Settled d := by
  intro call hcall
  have hdone := h call hcall
  cases call with
  | opening => rfl
  | closing info stage => cases stage <;> first | rfl | cases hdone
  | totals => rfl

theorem Books.quiet (h : s.Books) (hdone : ∀ call ∈ s.calls, call.isDone = true) (d : Dir) :
    s.registry.totals.bytes d = s.counted d := by
  have hsplit := h.counts.split d
  have hsmall := h.counts.small d
  have hlive : sumU64 (s.registry.live.map fun x => s.registry.bytes x.id d) = s.liveSum d :=
    sumU64_eq (by rw [liveSum, sumOf] at hsplit; omega)
  have htotal := totalBytes_of_settled h.totalled (settled_of_done hdone d)
  have hsum : s.registry.totals.bytes d = addU64 (s.registry.totalBytes d) (s.liveSum d) := by
    cases d <;> rw [← hlive] <;> rfl
  rw [hsum, htotal, addU64, Nat.mod_eq_of_lt (by omega)]
  omega

/-- In every run in which no bytes are counted on a connection after its `close` has loaded them, and no
total is loaded while a `close` has added bytes of a connection that is still on the list, the reports are
right. -/
theorem totals_consistent {es : List Event} (hmeets : machine.Meets Careful initial es)
    (hrun : machine.run initial es = some s) : s.Consistent := by
  have h := books_of_run hmeets hrun
  exact ⟨h.readers.bounded, h.readers.monotone, h.quiet⟩

/-- The connection of the runs below. -/
def sample : Description := ⟨"web", .tcp, "203.0.113.7:40000", "127.0.0.1:80"⟩

def sampleInfo : ConnectionInfo := { sample with id := 1 }

/-- One connection is opened, counts five bytes and is being closed; its `close` is about to take it off
the list. -/
def halfClosed : List Event :=
  [.open sample, .next 0, .next 0, .next 0, .count 1 .bytesIn 5, .close sampleInfo, .next 1, .next 1]

/-- A `totals` with one connection on the list. -/
def readOne (c : Nat) : List Event := .totals :: List.replicate 7 (.next c)

theorem totals_consistent_sample : ∃ s,
    machine.run initial (halfClosed ++ [.next 1, .next 1, .next 1, .totals] ++
      List.replicate 5 (.next 2)) = some s ∧ s.Consistent := by
  have hsome : (machine.run initial (halfClosed ++ [.next 1, .next 1, .next 1, .totals] ++
      List.replicate 5 (.next 2))).isSome = true := by
    decide +kernel
  obtain ⟨s, hs⟩ := Option.isSome_iff_exists.1 hsome
  exact ⟨s, hs, totals_consistent (by decide +kernel) hs⟩

/-- A `totals` that comes after the `close` has added and before it has taken its connection off the list
reports ten bytes where five were counted. -/
theorem counted_twice : ¬∀ es s, machine.run initial es = some s → s.Consistent := by
  intro h
  have hend : (machine.run initial (halfClosed ++ readOne 2)).map
      (fun s => (s.reports, s.counted .bytesIn)) = some ([⟨1, 1, 10, 0⟩], 5) := by
    decide +kernel
  obtain ⟨s, hrun, hs⟩ := Option.map_eq_some_iff.1 hend
  obtain ⟨hreports, hcounted⟩ := Prod.mk.inj hs
  have hle := (h _ s hrun).bounded ⟨1, 1, 10, 0⟩ (by simp [hreports]) .bytesIn
  rw [hcounted] at hle
  exact absurd hle (by decide)

end Traffic
end Stats
end Erbridge
