import GgmlViz.Trace.OpTimings
import Mathlib.Data.List.Induction

/-! # What the operation timings are

Each end of an operation is matched with the latest earlier event of an operation on the
same tensor, if that is a begin. Nothing is said here about how the events interleave.
-/
namespace GgmlViz
open LittleEndian
variable {L : Type}

def Event.isOp (e : Event L) : Bool := e.type = .opComputeBegin || e.type = .opComputeEnd

/-- The latest event of an operation on a tensor, with its position. -/
def latestOp (events : List (Event L)) (ptr : Ptr) : Option (ℕ × Event L) :=
  ((events.zipIdx.filter (fun x => x.1.isOp && x.1.data.op.tensorPtr = ptr)).getLast?).map Prod.swap

/-- The timing that ends at a position. -/
def timingAt (events : List (Event Bytes)) (j : ℕ) : Option OpTiming :=
  match events[j]? with
  | none => none
  | some e =>
    if e.type = .opComputeEnd then
      match latestOp (events.take j) e.data.op.tensorPtr with
      | none => none
      | some (b,e0) =>
        if e0.type = .opComputeBegin then
          some
            { beginAt := b, endAt := j, durationNs := e.timestampNs - e0.timestampNs
              name := (e.label.map cString).getD unnamed }
        else none
    else none

def OpTiming.positions (t : OpTiming) : List ℕ := [t.beginAt,t.endAt]

/-- One timing for each end that is matched, none else; no event is in two timings; the
longest timing comes first. -/
structure MatchesOps (events : List (Event Bytes)) (timings : List OpTiming) : Prop where
  perm : timings.Perm ((List.range events.length).filterMap (timingAt events))
  nodup : (timings.flatMap OpTiming.positions).Nodup
  sorted : timings.Pairwise (fun a b => b.durationNs ≤ a.durationNs)

section Latest
variable {events pre : List (Event L)} {ptr : Ptr}

theorem latestOp_concat (pre : List (Event L)) (e : Event L) (ptr : Ptr) :
    latestOp (pre ++ [e]) ptr =
      if e.isOp && e.data.op.tensorPtr = ptr then some (pre.length,e) else latestOp pre ptr := by
  rw [latestOp,List.zipIdx_append,List.filter_append]
  split
  · next h => simp [h]
  · next h => simp [h,latestOp]

/-- After the latest operation on a tensor there is no other. -/
theorem latestOp_eq_some {b : ℕ} {e0 : Event L} (h : latestOp events ptr = some (b,e0)) :
    events[b]? = some e0 ∧ e0.data.op.tensorPtr = ptr ∧
      ∀ k e, b < k → events[k]? = some e → e.isOp = true → e.data.op.tensorPtr ≠ ptr := by
  induction events using List.reverseRecOn with
  | nil => cases h
  | append_singleton events e ih =>
    rw [latestOp_concat] at h
    split at h
    · next hop =>
      cases h
      refine ⟨by simp,by simpa using (Bool.and_eq_true_iff.mp hop).2,?_⟩
      intro k e hk he
      rw [List.getElem?_eq_none (by simp; omega)] at he
      cases he
    · next hop =>
      obtain ⟨hb,hptr,hlast⟩ := ih h
      have hlt := (List.getElem?_eq_some_iff.mp hb).1
      refine ⟨by rwa [List.getElem?_append_left hlt],hptr,?_⟩
      intro k e' hk he' hisOp htensor
      by_cases hkl : k < events.length
      · rw [List.getElem?_append_left hkl] at he'
        exact hlast k e' hk he' hisOp htensor
      · have hsame : e' = e := by
          rw [List.getElem?_append_right (by omega)] at he'
          obtain ⟨hk0,he'⟩ := List.getElem?_eq_some_iff.mp he'
          simpa using he'.symm
        subst hsame
        exact hop (by simp [hisOp,htensor])

end Latest

section Loop

def pendingAfter (events : List (Event Bytes)) : Pending Bytes := fun ptr =>
  (latestOp events ptr).filter (fun x => x.2.type = .opComputeBegin)

theorem pendingAfter_concat_begin (pre : List (Event Bytes)) {e : Event Bytes}
    (h : e.type = .opComputeBegin) : pendingAfter (pre ++ [e]) =
      Function.update (pendingAfter pre) e.data.op.tensorPtr (some (pre.length,e)) := by
  funext ptr
  by_cases hptr : ptr = e.data.op.tensorPtr
  · subst hptr
    simp [pendingAfter,latestOp_concat,Event.isOp,h]
  · simp [pendingAfter,latestOp_concat,Ne.symm hptr,Function.update_of_ne hptr]

theorem pendingAfter_concat_end (pre : List (Event Bytes)) {e : Event Bytes}
    (h : e.type = .opComputeEnd) : pendingAfter (pre ++ [e]) =
      Function.update (pendingAfter pre) e.data.op.tensorPtr none := by
  have hne : EventType.opComputeEnd ≠ .opComputeBegin := by decide
  funext ptr
  by_cases hptr : ptr = e.data.op.tensorPtr
  · subst hptr
    simp [pendingAfter,latestOp_concat,Event.isOp,h,hne]
  · simp [pendingAfter,latestOp_concat,Ne.symm hptr,Function.update_of_ne hptr]

theorem pendingAfter_concat_other (pre : List (Event Bytes)) {e : Event Bytes}
    (hb : e.type ≠ .opComputeBegin) (he : e.type ≠ .opComputeEnd) :
    pendingAfter (pre ++ [e]) = pendingAfter pre := by
  funext ptr
  simp [pendingAfter,latestOp_concat,Event.isOp,hb,he]

theorem timingAt_end (pre es : List (Event Bytes)) {e : Event Bytes} (h : e.type = .opComputeEnd) :
    timingAt (pre ++ e :: es) pre.length =
      (pendingAfter pre e.data.op.tensorPtr).map (fun x =>
        { beginAt := x.1, endAt := pre.length, durationNs := e.timestampNs - x.2.timestampNs
          name := (e.label.map cString).getD unnamed }) := by
  have hat : (pre ++ e :: es)[pre.length]? = some e := by simp
  have htake : (pre ++ e :: es).take pre.length = pre := List.take_left' rfl
  rw [timingAt,hat,pendingAfter]
  dsimp only
  rw [if_pos h,htake]
  cases latestOp pre e.data.op.tensorPtr with
  | none => rfl
  | some x => by_cases hx : x.2.type = .opComputeBegin <;> simp [Option.filter,hx]

/-- The loop matches each end that it comes to. -/
theorem opTimingLoop_eq (pre es : List (Event Bytes)) :
    opTimingLoop pre.length (pendingAfter pre) es =
      (List.range' pre.length es.length).filterMap (timingAt (pre ++ es)) := by
  induction es generalizing pre with
  | nil => rfl
  | cons e es ih =>
    have hnext := ih (pre ++ [e])
    simp only [List.length_append,List.length_singleton,List.append_assoc,
      List.singleton_append] at hnext
    have hat : (pre ++ e :: es)[pre.length]? = some e := by simp
    rw [List.length_cons,List.range'_succ,List.filterMap_cons,← hnext]
    by_cases hb : e.type = .opComputeBegin
    · have hne : EventType.opComputeBegin ≠ .opComputeEnd := by decide
      have hnone : timingAt (pre ++ e :: es) pre.length = none := by simp [timingAt,hb,hne]
      rw [hnone,pendingAfter_concat_begin pre hb]
      simp [opTimingLoop,hb]
    · by_cases he : e.type = .opComputeEnd
      · have hne : EventType.opComputeEnd ≠ .opComputeBegin := by decide
        rw [timingAt_end pre es he,pendingAfter_concat_end pre he]
        cases hpending : pendingAfter pre e.data.op.tensorPtr with
        | none =>
          -- erasing what is not there changes nothing
          have hsame : Function.update (pendingAfter pre) e.data.op.tensorPtr none =
              pendingAfter pre := by
            rw [← hpending,Function.update_eq_self]
          simp [opTimingLoop,he,hne,hpending,hsame]
        | some x => simp [opTimingLoop,he,hne,hpending]
      · have hnone : timingAt (pre ++ e :: es) pre.length = none := by simp [timingAt,he]
        rw [hnone,pendingAfter_concat_other pre hb he]
        simp [opTimingLoop,hb,he]

theorem opTimingLoop_start (events : List (Event Bytes)) :
    opTimingLoop 0 (fun _ => none) events =
      (List.range events.length).filterMap (timingAt events) := by
  rw [List.range_eq_range']
  exact opTimingLoop_eq [] events

end Loop

section Positions
variable {events : List (Event Bytes)} {i j : ℕ} {t u : OpTiming}

/-- The two events of a timing. -/
structure IsPair (events : List (Event Bytes)) (b j : ℕ) (e0 e : Event Bytes) : Prop where
  lt : b < j
  beginAt : events[b]? = some e0
  endAt : events[j]? = some e
  isBegin : e0.type = .opComputeBegin
  isEnd : e.type = .opComputeEnd
  tensor : e0.data.op.tensorPtr = e.data.op.tensorPtr
  /-- No operation on the tensor comes between them. -/
  latest : ∀ k x, b < k → k < j → events[k]? = some x → x.isOp = true →
    x.data.op.tensorPtr ≠ e.data.op.tensorPtr

theorem timingAt_eq_some (h : timingAt events j = some t) :
    ∃ e0 e, IsPair events t.beginAt j e0 e ∧
      t = { beginAt := t.beginAt, endAt := j, durationNs := e.timestampNs - e0.timestampNs
            name := (e.label.map cString).getD unnamed } := by
  unfold timingAt at h
  split at h
  · cases h
  · next e he =>
    split at h
    · next hend =>
      split at h
      · cases h
      · next b e0 hlatest =>
        split at h
        · next hbegin =>
          cases h
          obtain ⟨hb,htensor,hlast⟩ := latestOp_eq_some hlatest
          obtain ⟨hb',hget⟩ := List.getElem?_eq_some_iff.mp hb
          have hlt : b < j := by
            have hlen := List.length_take_le j events
            omega
          refine ⟨e0,e,?_,rfl⟩
          exact
            { lt := hlt
              beginAt := by rwa [List.getElem?_take_of_lt hlt] at hb
              endAt := he
              isBegin := hbegin
              isEnd := hend
              tensor := htensor
              latest := by
                intro k x hbk hkj hx hop
                exact hlast k x hbk (by rwa [List.getElem?_take_of_lt hkj]) hop }
        · cases h
    · cases h

/-- An earlier end is not between the events of a later timing, so they share none. -/
theorem disjoint_positions (hij : i < j) (ht : timingAt events i = some t)
    (hu : timingAt events j = some u) : t.positions.Disjoint u.positions := by
  obtain ⟨e0,e,hpt,ht⟩ := timingAt_eq_some ht
  obtain ⟨f0,f,hpu,hu⟩ := timingAt_eq_some hu
  rw [ht,hu]
  have hbegins : t.beginAt ≠ u.beginAt := by
    intro hsame
    have hevent : e0 = f0 := by
      have hf := hpu.beginAt
      rw [← hsame,hpt.beginAt] at hf
      exact Option.some.inj hf
    have hend : e.isOp = true := by simp [Event.isOp,hpt.isEnd]
    refine hpu.latest i e (hsame ▸ hpt.lt) hij hpt.endAt hend ?_
    rw [← hpt.tensor,hevent,hpu.tensor]
  have hcross : u.beginAt ≠ i := by
    intro hsame
    have hf := hpu.beginAt
    rw [hsame,hpt.endAt] at hf
    have htype := hpu.isBegin
    rw [← Option.some.inj hf,hpt.isEnd] at htype
    exact absurd htype (by decide)
  have hlt := hpt.lt
  simp only [OpTiming.positions,List.disjoint_cons_left,List.disjoint_nil_left,List.mem_cons,
    List.not_mem_nil,or_false,not_or,and_true]
  omega

theorem nodup_positions (events : List (Event Bytes)) :
    (((List.range events.length).filterMap (timingAt events)).flatMap OpTiming.positions).Nodup := by
  rw [List.nodup_flatMap]
  constructor
  · intro t ht
    obtain ⟨j,-,hj⟩ := List.mem_filterMap.mp ht
    obtain ⟨e0,e,hp,ht⟩ := timingAt_eq_some hj
    rw [ht]
    simpa [OpTiming.positions] using Nat.ne_of_lt hp.lt
  · rw [List.pairwise_filterMap]
    refine List.pairwise_lt_range.imp ?_
    intro i j hij t ht u hu
    exact disjoint_positions hij ht hu

end Positions

theorem perm_getOpTimings [StdSort] (events : List (Event Bytes)) :
    (getOpTimings events).Perm ((List.range events.length).filterMap (timingAt events)) := by
  rw [← opTimingLoop_start]
  exact StdSort.perm _ _

theorem strictWeak_isLonger : StrictWeak OpTiming.isLonger where
  asymm := by
    intro a b h
    exact decide_eq_false (UInt64.lt_asymm (of_decide_eq_true h))
  negTrans := by
    intro a b c hab hbc
    have hab := UInt64.not_lt.mp (of_decide_eq_false hab)
    have hbc := UInt64.not_lt.mp (of_decide_eq_false hbc)
    exact decide_eq_false (UInt64.not_lt.mpr (UInt64.le_trans hab hbc))

/-- `get_op_timings` neither loses, nor duplicates, nor cross-matches a pair. -/
theorem getOpTimings_matches [StdSort] (events : List (Event Bytes)) :
    MatchesOps events (getOpTimings events) := by
  have hperm := perm_getOpTimings events
  exact
    { perm := hperm
      nodup := (hperm.flatMap_right _).nodup_iff.mpr (nodup_positions events)
      sorted := by
        have hsorted : (getOpTimings events).Pairwise (fun a b => b.isLonger a = false) :=
          StdSort.sorted strictWeak_isLonger _
        exact hsorted.imp (fun h => UInt64.not_lt.mp (of_decide_eq_false h)) }

end GgmlViz
