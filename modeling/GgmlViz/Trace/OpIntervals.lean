import GgmlViz.Trace.OpMatching

/-! # Timings as intervals

One recording thread writes its timestamps in order. Then the timings of a tensor are
intervals one behind the other, and together no longer than the trace.
-/
namespace GgmlViz
open LittleEndian
variable {L : Type}

def timeAt (events : List (Event L)) (i : ℕ) : UInt64 :=
  (events[i]?.map Event.timestampNs).getD 0

/-- The timestamp of `events_.front()`. -/
def frontTime (events : List (Event L)) : UInt64 := timeAt events 0

/-- The timestamp of `events_.back()`. -/
def backTime (events : List (Event L)) : UInt64 := timeAt events (events.length - 1)

def getTotalDurationNs (events : List (Event L)) : UInt64 :=
  if events.length < 2 then 0 else backTime events - frontTime events

def OpTiming.tensor (events : List (Event L)) (t : OpTiming) : Ptr :=
  (events[t.beginAt]?.map (fun e => e.data.op.tensorPtr)).getD 0

def InOrder (events : List (Event L)) : Prop :=
  events.Pairwise (fun a b => a.timestampNs ≤ b.timestampNs)

/-- The timings lie within the trace, and those of a tensor one behind the other. -/
structure FitsTrace (events : List (Event Bytes)) (timings : List OpTiming) : Prop where
  noWrap : ∀ t ∈ timings, timeAt events t.beginAt ≤ timeAt events t.endAt ∧
    t.durationNs.toNat = (timeAt events t.endAt).toNat - (timeAt events t.beginAt).toNat
  within : ∀ t ∈ timings,
    frontTime events ≤ timeAt events t.beginAt ∧ timeAt events t.endAt ≤ backTime events
  apart : timings.Pairwise (fun t u => t.tensor events = u.tensor events →
    timeAt events t.endAt ≤ timeAt events u.beginAt ∨
      timeAt events u.endAt ≤ timeAt events t.beginAt)
  sums : ∀ ptr, ((timings.filter (fun t => t.tensor events = ptr)).map
    (fun t => t.durationNs.toNat)).sum ≤ (getTotalDurationNs events).toNat

/-- Intervals one behind the other are together no longer than what they lie in. -/
theorem sum_intervals_le {α : Type*} (lo hi : α → ℕ) {l : List α} {first last : ℕ}
    (hpairs : l.Pairwise (fun x y => hi x ≤ lo y))
    (hin : ∀ x ∈ l, first ≤ lo x ∧ lo x ≤ hi x ∧ hi x ≤ last) :
    (l.map (fun x => hi x - lo x)).sum ≤ last - first := by
  induction l generalizing first with
  | nil => simp
  | cons x l ih =>
    obtain ⟨hbehind,hpairs⟩ := List.pairwise_cons.mp hpairs
    obtain ⟨hfirst,hlen,hlast⟩ := hin x List.mem_cons_self
    have hrest : (l.map (fun x => hi x - lo x)).sum ≤ last - hi x :=
      ih hpairs (fun y hy => ⟨hbehind y hy,(hin y (List.mem_cons_of_mem _ hy)).2⟩)
    rw [List.map_cons,List.sum_cons]
    omega

section Times
variable {events : List (Event L)} {i j : ℕ}

theorem timeAt_eq {e : Event L} (h : events[i]? = some e) : timeAt events i = e.timestampNs := by
  simp [timeAt,h]

theorem InOrder.timeAt_le (h : InOrder events) (hij : i ≤ j) (hj : j < events.length) :
    timeAt events i ≤ timeAt events j := by
  rcases Nat.eq_or_lt_of_le hij with rfl | hlt
  · exact UInt64.le_refl _
  · have hi : i < events.length := by omega
    rw [timeAt_eq (List.getElem?_eq_getElem hi),timeAt_eq (List.getElem?_eq_getElem hj)]
    exact List.pairwise_iff_getElem.mp h i j hi hj hlt

end Times

section Timings
variable {events : List (Event Bytes)} {timings : List OpTiming} {t : OpTiming} {j : ℕ}

/-- What a timing says about the clock. -/
structure SpanOf (events : List (Event Bytes)) (t : OpTiming) : Prop where
  lt : t.beginAt < t.endAt
  inside : t.endAt < events.length
  duration : t.durationNs = timeAt events t.endAt - timeAt events t.beginAt

theorem spanOf_timingAt (h : timingAt events j = some t) : SpanOf events t ∧ t.endAt = j := by
  obtain ⟨e0,e,hpair,ht⟩ := timingAt_eq_some h
  have hend : t.endAt = j := congrArg OpTiming.endAt ht
  subst hend
  refine ⟨?_,rfl⟩
  exact
    { lt := hpair.lt
      inside := (List.getElem?_eq_some_iff.mp hpair.endAt).1
      duration := by
        rw [timeAt_eq hpair.endAt,timeAt_eq hpair.beginAt]
        exact congrArg OpTiming.durationNs ht }

/-- Timings of one tensor come one behind the other. -/
theorem ordered_timingAt (events : List (Event Bytes)) :
    ((List.range events.length).filterMap (timingAt events)).Pairwise
      (fun t u => t.tensor events = u.tensor events → t.endAt ≤ u.beginAt) := by
  rw [List.pairwise_filterMap]
  refine List.pairwise_lt_range.imp ?_
  intro i j hij t ht u hu hsame
  obtain ⟨e0,e,hpt,-⟩ := timingAt_eq_some ht
  obtain ⟨f0,f,hpu,-⟩ := timingAt_eq_some hu
  have hti := (spanOf_timingAt ht).2
  simp only [OpTiming.tensor,hpt.beginAt,hpu.beginAt,Option.map_some,Option.getD_some] at hsame
  by_contra hlt
  have hend : e.isOp = true := by simp [Event.isOp,hpt.isEnd]
  -- the earlier end would lie between the begin and the end of the later timing
  refine hpu.latest i e (by omega) hij hpt.endAt hend ?_
  rw [← hpt.tensor,hsame,hpu.tensor]

theorem noWrap_of_span (horder : InOrder events) (h : SpanOf events t) :
    timeAt events t.beginAt ≤ timeAt events t.endAt ∧
      t.durationNs.toNat = (timeAt events t.endAt).toNat - (timeAt events t.beginAt).toNat := by
  have hle := horder.timeAt_le (Nat.le_of_lt h.lt) h.inside
  exact ⟨hle,by rw [h.duration,UInt64.toNat_sub_of_le _ _ hle]⟩

theorem within_of_span (horder : InOrder events) (h : SpanOf events t) :
    frontTime events ≤ timeAt events t.beginAt ∧ timeAt events t.endAt ≤ backTime events := by
  have hlt := h.lt
  have hinside := h.inside
  exact ⟨horder.timeAt_le (Nat.zero_le _) (by omega),horder.timeAt_le (by omega) (by omega)⟩

theorem toNat_getTotalDurationNs (horder : InOrder events) (h : 2 ≤ events.length) :
    (getTotalDurationNs events).toNat = (backTime events).toNat - (frontTime events).toNat := by
  have hle : frontTime events ≤ backTime events := horder.timeAt_le (Nat.zero_le _) (by omega)
  rw [getTotalDurationNs,if_neg (by omega),UInt64.toNat_sub_of_le _ _ hle]

theorem sum_timings_le (horder : InOrder events) (hspans : ∀ t ∈ timings, SpanOf events t)
    (hordered : timings.Pairwise
      (fun t u => t.tensor events = u.tensor events → t.endAt ≤ u.beginAt)) (ptr : Ptr) :
    ((timings.filter (fun t => t.tensor events = ptr)).map (fun t => t.durationNs.toNat)).sum ≤
      (getTotalDurationNs events).toNat := by
  let own := timings.filter (fun t => t.tensor events = ptr)
  have hown : ∀ t ∈ own, SpanOf events t ∧ t.tensor events = ptr := by
    intro t ht
    obtain ⟨hmem,htensor⟩ := List.mem_filter.mp ht
    exact ⟨hspans t hmem,of_decide_eq_true htensor⟩
  have hdurations : own.map (fun t => t.durationNs.toNat) = own.map
      (fun t => (timeAt events t.endAt).toNat - (timeAt events t.beginAt).toNat) := by
    apply List.map_congr_left
    intro t ht
    exact (noWrap_of_span horder (hown t ht).1).2
  show (own.map (fun t => t.durationNs.toNat)).sum ≤ _
  rw [hdurations]
  cases hcase : own with
  | nil => simp
  | cons t rest =>
    have ht := (hown t (by rw [hcase]; exact List.mem_cons_self)).1
    have htwo : 2 ≤ events.length := by
      have hlt := ht.lt
      have hinside := ht.inside
      omega
    rw [← hcase,toNat_getTotalDurationNs horder htwo]
    apply sum_intervals_le
    · have hpairs := hordered.filter (fun t => t.tensor events = ptr)
      refine List.Pairwise.imp_of_mem ?_ hpairs
      intro t u ht hu hle
      have hbehind := hle ((hown t ht).2.trans (hown u hu).2.symm)
      have hu := (hown u hu).1
      exact UInt64.le_iff_toNat_le.mp
        (horder.timeAt_le hbehind (Nat.lt_trans hu.lt hu.inside))
    · intro t ht
      have hspan := (hown t ht).1
      obtain ⟨hfront,hback⟩ := within_of_span horder hspan
      exact ⟨UInt64.le_iff_toNat_le.mp hfront,
        UInt64.le_iff_toNat_le.mp (noWrap_of_span horder hspan).1,
        UInt64.le_iff_toNat_le.mp hback⟩

/-- With timestamps in order, the timings fit into the trace. -/
theorem getOpTimings_fitsTrace [StdSort] (events : List (Event Bytes)) (horder : InOrder events) :
    FitsTrace events (getOpTimings events) := by
  let loop := (List.range events.length).filterMap (timingAt events)
  have hperm : (getOpTimings events).Perm loop := perm_getOpTimings events
  have hspans : ∀ t ∈ loop, SpanOf events t := by
    intro t ht
    obtain ⟨j,-,hj⟩ := List.mem_filterMap.mp ht
    exact (spanOf_timingAt hj).1
  have hordered := ordered_timingAt events
  exact
    { noWrap := fun t ht => noWrap_of_span horder (hspans t (hperm.mem_iff.mp ht))
      within := fun t ht => within_of_span horder (hspans t (hperm.mem_iff.mp ht))
      apart := by
        have hapart : loop.Pairwise (fun t u => t.tensor events = u.tensor events →
            timeAt events t.endAt ≤ timeAt events u.beginAt ∨
              timeAt events u.endAt ≤ timeAt events t.beginAt) := by
          refine List.Pairwise.imp_of_mem ?_ hordered
          intro t u ht hu hle hsame
          have hu := hspans u hu
          exact .inl (horder.timeAt_le (hle hsame) (Nat.lt_trans hu.lt hu.inside))
        refine (hperm.pairwise_iff ?_).mpr hapart
        intro t u h hsame
        exact (h hsame.symm).symm
      sums := by
        intro ptr
        have hsums := sum_timings_le horder hspans hordered ptr
        rwa [((hperm.filter _).map _).sum_nat] }

attribute [local instance] mergeSorting

/-- An operation that is computed twice. -/
def computedTwice : List (Event Bytes) :=
  let event := fun (type : EventType) (now : UInt64) =>
    { type := type, timestampNs := now, threadId := 1, label := none,
      data := ({ tensorPtr := 128, opType := 0, opSize := 4, backendPtr := 0 } : OpData).toData }
  [event .opComputeBegin 5,event .opComputeEnd 9,event .opComputeBegin 9,event .opComputeEnd 12]

theorem getOpTimings_fitsTrace_twice : FitsTrace computedTwice (getOpTimings computedTwice) := by
  have horder : InOrder computedTwice := by
    unfold InOrder
    decide
  exact getOpTimings_fitsTrace computedTwice horder

end Timings
end GgmlViz
