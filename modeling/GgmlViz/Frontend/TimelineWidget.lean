import GgmlViz.Frontend.GraphNodes
import GgmlViz.Trace.OpMatching
import GgmlViz.Foundation.FirstSeen

/-! # The entries of the timeline

`process_events` makes an entry of each timing, which refers to its event by its position,
and lists the threads in the order in which they appear. The lane of a thread is looked up
in this list, a new thread is detected with a map.
-/
namespace GgmlViz
open LittleEndian

/-- `TimelineEvent` -/
structure TimelineEvent (F : Type) where
  eventIndex : Int32
  startTimeMs : F
  durationMs : F
  threadId : Int32
  label : Bytes
  color : UInt32
  isGraphEvent : Bool

/-- `TimelineWidget`, as far as the entries depend on it. -/
structure TimelineWidget where
  selectedEvent : Int32
  threadIds : List Int32

def TimelineWidget.new : TimelineWidget where
  selectedEvent := -1
  threadIds := []

def threadColors : List UInt32 :=
  [imCol32 100 150 255 255,imCol32 255 100 150 255,imCol32 150 255 100 255,
    imCol32 255 255 100 255,imCol32 255 150 100 255,imCol32 150 100 255 255,
    imCol32 100 255 255 255,imCol32 255 100 100 255]

/-- The remainder is one of `size_t`, also for a negative id. -/
def getThreadColor (threadId : Int32) : UInt32 :=
  threadColors.get
    ⟨threadId.toInt64.toUInt64.toNat % threadColors.length,Nat.mod_lt _ (by decide)⟩

def getOperationColor (e : Event Bytes) : UInt32 :=
  if e.type = .graphComputeBegin ∨ e.type = .graphComputeEnd then imCol32 100 200 100 255
  else if e.type = .opComputeBegin ∨ e.type = .opComputeEnd then getThreadColor e.threadId.toInt32
  else imCol32 150 150 150 255

def getEventColor (e : Event Bytes) (isSelected : Bool) : UInt32 :=
  if isSelected then imCol32 255 200 100 255 else getOperationColor e

/-- `thread_to_lane` and `thread_ids_` in the loop over the events. -/
structure ThreadLanes where
  threadToLane : Int32 → Option Int32
  threadIds : List Int32

def ThreadLanes.empty : ThreadLanes where
  threadToLane _ := none
  threadIds := []

/-- `try_emplace`, and `push_back` if it has inserted. -/
def ThreadLanes.see (s : ThreadLanes) (threadId : Int32) : ThreadLanes :=
  match s.threadToLane threadId with
  | some _ => s
  | none =>
    { threadToLane :=
        Function.update s.threadToLane threadId (some (Int32.ofNat s.threadIds.length))
      threadIds := s.threadIds ++ [threadId] }

section Process
variable {F : Type} (fl : FloatArith F) (lt : F → F → Bool)

/-- `ns / 1e6f` -/
def nsToMs (ns : UInt64) : F := fl.div (fl.ofNat ns.toNat) (fl.ofNat 1000000)

/-- The entry of a timing; the pointer to its begin is never out of the list. -/
def timelineEventOf (selectedEvent : Int32) (first : Event Bytes) (events : List (Event Bytes))
    (timing : OpTiming) : TimelineEvent F :=
  let begin := (events[timing.beginAt]?).getD first
  let eventIndex := Int32.ofNat timing.beginAt
  { eventIndex := eventIndex
    startTimeMs := nsToMs fl (begin.timestampNs - first.timestampNs)
    durationMs := nsToMs fl timing.durationNs
    threadId := begin.threadId.toInt32
    label := timing.name
    color := getEventColor begin (eventIndex == selectedEvent)
    isGraphEvent := begin.type = .graphComputeBegin }

/-- `process_events`: the threads of an empty list are those of the last one. -/
def TimelineWidget.processEvents [StdSort] (w : TimelineWidget) (events : List (Event Bytes)) :
    TimelineWidget × List (TimelineEvent F) :=
  match events with
  | [] => (w,[])
  | first :: rest =>
    let lanes := (events.map (fun e => e.threadId.toInt32)).foldl ThreadLanes.see .empty
    let entries := (getOpTimings events).map
      (timelineEventOf fl w.selectedEvent first (first :: rest))
    ({ w with threadIds := lanes.threadIds },
      StdSort.sort (fun a b => lt a.startTimeMs b.startTimeMs) entries)

/-- `get_thread_lane`: a thread that is not found has lane 0. -/
def TimelineWidget.getThreadLane (w : TimelineWidget) (threadId : Int32) : Int32 :=
  let i := w.threadIds.idxOf threadId
  if i ≠ w.threadIds.length then Int32.ofNat i else 0

end Process

section Lanes
open FirstSeen
variable {ids : List Int32} {x y : Int32} {w : TimelineWidget}

/-- The map and the list after the events of some threads: they number the threads alike. -/
def lanesAfter (ids : List Int32) : ThreadLanes where
  threadToLane x := if x ∈ ids then some (Int32.ofNat (rank ids x)) else none
  threadIds := ids.eraseDups

theorem lanesAfter_concat_mem (h : x ∈ ids) : lanesAfter (ids ++ [x]) = lanesAfter ids := by
  simp only [lanesAfter,ThreadLanes.mk.injEq,eraseDups_concat,if_pos h,and_true]
  funext y
  by_cases hy : y ∈ ids
  · simp [hy,rank_append]
  · have hyx : y ≠ x := by
      rintro rfl
      exact hy h
    simp [hy,hyx]

theorem lanesAfter_concat_notMem (h : x ∉ ids) : lanesAfter (ids ++ [x]) =
    { threadToLane := Function.update (lanesAfter ids).threadToLane x
        (some (Int32.ofNat (lanesAfter ids).threadIds.length))
      threadIds := (lanesAfter ids).threadIds ++ [x] } := by
  simp only [lanesAfter,ThreadLanes.mk.injEq,eraseDups_concat,if_neg h,and_true]
  funext y
  by_cases hyx : y = x
  · subst hyx
    simp [rank_append_cons h,length_eraseDups]
  · by_cases hy : y ∈ ids
    · simp [Function.update_of_ne hyx,hy,rank_append]
    · simp [hy,hyx]

/-- The map detects just the threads that the list does not have. -/
theorem see_lanesAfter (ids : List Int32) (x : Int32) :
    (lanesAfter ids).see x = lanesAfter (ids ++ [x]) := by
  by_cases h : x ∈ ids
  · rw [lanesAfter_concat_mem h]
    simp [ThreadLanes.see,lanesAfter,h]
  · rw [lanesAfter_concat_notMem h]
    simp [ThreadLanes.see,lanesAfter,h]

theorem foldl_see (ids more : List Int32) :
    more.foldl ThreadLanes.see (lanesAfter ids) = lanesAfter (ids ++ more) := by
  induction more generalizing ids with
  | nil => rw [List.append_nil,List.foldl_nil]
  | cons x more ih => rw [List.foldl_cons,see_lanesAfter,ih,List.append_assoc,List.singleton_append]

theorem foldl_see_empty (ids : List Int32) : ids.foldl ThreadLanes.see .empty = lanesAfter ids := by
  have hempty : ThreadLanes.empty = lanesAfter [] := by simp [ThreadLanes.empty,lanesAfter]
  rw [hempty,foldl_see,List.nil_append]

theorem getThreadLane_of_mem (hw : w.threadIds = ids.eraseDups) (h : x ∈ ids) :
    w.getThreadLane x = Int32.ofNat (rank ids x) := by
  have hlt : rank ids x < ids.eraseDups.length := by
    rw [length_eraseDups]
    exact rank_lt h
  rw [TimelineWidget.getThreadLane,hw,idxOf_eraseDups h]
  exact if_pos hlt.ne

end Lanes

section Threads
open FirstSeen
variable {events : List (Event Bytes)} {w : TimelineWidget} {e : Event Bytes}

def threadsOf (events : List (Event Bytes)) : List UInt32 := events.map Event.threadId

theorem card_threadsOf_le (events : List (Event Bytes)) :
    (threadsOf events).toFinset.card ≤ events.length := by
  have hcard := List.toFinset_card_le (threadsOf events)
  rwa [threadsOf,List.length_map] at hcard

theorem toInt32_injective : Function.Injective UInt32.toInt32 :=
  Function.LeftInverse.injective UInt32.toUInt32_toInt32

theorem int32_ofNat_inj {m n : ℕ} (hm : m < 2^31) (hn : n < 2^31)
    (h : Int32.ofNat m = Int32.ofNat n) : m = n := by
  have hint := congrArg Int32.toInt h
  rwa [Int32.toInt_ofNat_of_lt hm,Int32.toInt_ofNat_of_lt hn,Nat.cast_inj] at hint

/-- The lanes number the threads in the order in which they appear. -/
theorem getThreadLane_eq_rank
    (hw : w.threadIds = ((threadsOf events).map UInt32.toInt32).eraseDups)
    (hlen : events.length < 2^31) (he : e ∈ events) :
    (w.getThreadLane e.threadId.toInt32).toInt = rank (threadsOf events) e.threadId := by
  have hmem : e.threadId ∈ threadsOf events := List.mem_map_of_mem he
  have hrank := rank_lt hmem
  have hcard := card_threadsOf_le events
  rw [getThreadLane_of_mem hw (List.mem_map_of_mem hmem),rank_map toInt32_injective hmem]
  exact Int32.toInt_ofNat_of_lt (by omega)

end Threads

section Identify
open FirstSeen
variable {F : Type} (fl : FloatArith F) (lt : F → F → Bool) {events : List (Event Bytes)}
variable {w : TimelineWidget} {t : OpTiming} {e : Event Bytes} {x : TimelineEvent F}

/-- An entry shows a timing, and refers to the event that this begins with. -/
structure ShowsTiming (events : List (Event Bytes)) (t : OpTiming) (e : Event Bytes)
    (x : TimelineEvent F) : Prop where
  beginAt : events[t.beginAt]? = some e
  isBegin : e.type = .opComputeBegin
  eventIndex : x.eventIndex.toInt = t.beginAt
  threadId : x.threadId = e.threadId.toInt32
  startTimeMs : ∀ first, events.head? = some first →
    x.startTimeMs = nsToMs fl (e.timestampNs - first.timestampNs)
  durationMs : x.durationMs = nsToMs fl t.durationNs
  label : x.label = t.name

variable [StdSort]

/-- Each timing has one entry, which no other entry is taken for, in the lane of its thread. -/
structure IdentifiesEvents (events : List (Event Bytes)) (w : TimelineWidget)
    (entries : List (TimelineEvent F)) : Prop where
  timings : ∃ xs, xs.Perm entries ∧
    List.Forall₂ (fun t x => ∃ e, ShowsTiming fl events t e x) (getOpTimings events) xs
  distinct : (entries.map TimelineEvent.eventIndex).Nodup
  begins : ∀ x ∈ entries, ∃ (i : ℕ) (e : Event Bytes), x.eventIndex.toInt = i ∧
    events[i]? = some e ∧ e.type = .opComputeBegin ∧ x.threadId = e.threadId.toInt32 ∧
      (w.getThreadLane x.threadId).toInt = rank (threadsOf events) e.threadId
  lanes : ∀ e ∈ events,
    (w.getThreadLane e.threadId.toInt32).toInt = rank (threadsOf events) e.threadId
  separate : ∀ e ∈ events, ∀ e' ∈ events, e.threadId ≠ e'.threadId →
    w.getThreadLane e.threadId.toInt32 ≠ w.getThreadLane e'.threadId.toInt32
  bounds : ∀ e ∈ events, 0 ≤ (w.getThreadLane e.threadId.toInt32).toInt ∧
    (w.getThreadLane e.threadId.toInt32).toInt < (threadsOf events).toFinset.card

/-- A timing begins with a begin of the list. -/
theorem beginAt_of_mem (h : t ∈ getOpTimings events) :
    ∃ e, events[t.beginAt]? = some e ∧ e.type = .opComputeBegin := by
  obtain ⟨j,-,hj⟩ := List.mem_filterMap.mp ((perm_getOpTimings events).mem_iff.mp h)
  obtain ⟨e,_,hp,-⟩ := timingAt_eq_some hj
  exact ⟨e,hp.beginAt,hp.isBegin⟩

theorem beginAt_lt_of_mem (h : t ∈ getOpTimings events) : t.beginAt < events.length := by
  obtain ⟨e,he,-⟩ := beginAt_of_mem h
  exact (List.getElem?_eq_some_iff.mp he).1

theorem nodup_beginAt (events : List (Event Bytes)) :
    ((getOpTimings events).map OpTiming.beginAt).Nodup := by
  have hpositions := ((perm_getOpTimings events).flatMap_right OpTiming.positions).nodup_iff.mpr
    (nodup_positions events)
  rw [List.nodup_flatMap] at hpositions
  rw [List.Nodup,List.pairwise_map]
  refine hpositions.2.imp ?_
  intro t u hdisjoint hsame
  exact hdisjoint (a := t.beginAt) List.mem_cons_self (hsame ▸ List.mem_cons_self)

theorem showsTiming_timelineEventOf {first : Event Bytes} (hfirst : events.head? = some first)
    (hlen : events.length < 2^31) (selectedEvent : Int32) (ht : t ∈ getOpTimings events) :
    ∃ e, ShowsTiming fl events t e (timelineEventOf fl selectedEvent first events t) := by
  obtain ⟨e,he,hbegin⟩ := beginAt_of_mem ht
  have hlt := beginAt_lt_of_mem ht
  have hread : (events[t.beginAt]?).getD first = e := by rw [he,Option.getD_some]
  refine ⟨e,?_⟩
  exact
    { beginAt := he
      isBegin := hbegin
      eventIndex := Int32.toInt_ofNat_of_lt (hlt.trans hlen)
      threadId := by rw [timelineEventOf,hread]
      startTimeMs := by
        intro first' hfirst'
        rw [hfirst,Option.some_inj] at hfirst'
        rw [timelineEventOf,hread,hfirst']
      durationMs := rfl
      label := rfl }

/-- No two timings begin with the same event, and `int` has room for its position. -/
theorem nodup_eventIndex (hlen : events.length < 2^31) (selectedEvent : Int32)
    (first : Event Bytes) :
    (((getOpTimings events).map (timelineEventOf fl selectedEvent first events)).map
      TimelineEvent.eventIndex).Nodup := by
  have hbegins := nodup_beginAt events
  rw [List.Nodup,List.pairwise_map] at hbegins
  rw [List.map_map,List.Nodup,List.pairwise_map]
  refine hbegins.imp_of_mem ?_
  intro t u ht hu htu hindex
  have ht' := (beginAt_lt_of_mem ht).trans hlen
  have hu' := (beginAt_lt_of_mem hu).trans hlen
  exact htu (int32_ofNat_inj ht' hu' hindex)

theorem threadIds_processEvents (w : TimelineWidget) (hne : events ≠ []) :
    (w.processEvents fl lt events).1.threadIds =
      ((threadsOf events).map UInt32.toInt32).eraseDups := by
  cases events with
  | nil => exact absurd rfl hne
  | cons first rest =>
    rw [TimelineWidget.processEvents,foldl_see_empty,threadsOf,List.map_map]
    rfl

theorem perm_processEvents (w : TimelineWidget) {first : Event Bytes}
    (hfirst : events.head? = some first) :
    ((getOpTimings events).map (timelineEventOf fl w.selectedEvent first events)).Perm
      (w.processEvents fl lt events).2 := by
  cases events with
  | nil => cases hfirst
  | cons _ rest =>
    cases hfirst
    exact (StdSort.perm _ _).symm

/-- The entries of `process_events` identify their events, whatever is selected. -/
theorem identifiesEvents_processEvents (w : TimelineWidget) (hne : events ≠ [])
    (hlen : events.length < 2^31) :
    IdentifiesEvents fl events (w.processEvents fl lt events).1
      (w.processEvents fl lt events).2 := by
  obtain ⟨first,hfirst⟩ : ∃ first, events.head? = some first := by
    cases events with
    | nil => exact absurd rfl hne
    | cons first rest => exact ⟨first,rfl⟩
  have hperm := perm_processEvents fl lt w hfirst
  have hlane : ∀ e ∈ events,
      ((w.processEvents fl lt events).1.getThreadLane e.threadId.toInt32).toInt =
        rank (threadsOf events) e.threadId := by
    intro e he
    exact getThreadLane_eq_rank (threadIds_processEvents fl lt w hne) hlen he
  have hmem (e : Event Bytes) (he : e ∈ events) : e.threadId ∈ threadsOf events :=
    List.mem_map_of_mem he
  exact
    { timings := by
        refine ⟨_,hperm,?_⟩
        rw [List.forall₂_map_right_iff,List.forall₂_same]
        intro t ht
        exact showsTiming_timelineEventOf fl hfirst hlen w.selectedEvent ht
      distinct := by
        rw [← (hperm.map TimelineEvent.eventIndex).nodup_iff]
        exact nodup_eventIndex fl hlen w.selectedEvent first
      begins := by
        intro x hx
        obtain ⟨t,ht,rfl⟩ := List.mem_map.mp (hperm.mem_iff.mpr hx)
        obtain ⟨e,hshows⟩ := showsTiming_timelineEventOf fl hfirst hlen w.selectedEvent ht
        refine ⟨t.beginAt,e,hshows.eventIndex,hshows.beginAt,hshows.isBegin,hshows.threadId,?_⟩
        rw [hshows.threadId]
        exact hlane e (List.mem_of_getElem? hshows.beginAt)
      lanes := hlane
      separate := by
        intro e he e' he' hne' hsame
        apply hne'
        have hrank := congrArg Int32.toInt hsame
        rw [hlane e he,hlane e' he',Nat.cast_inj] at hrank
        exact rank_inj (hmem e he) hrank (hmem e' he')
      bounds := by
        intro e he
        rw [hlane e he]
        exact ⟨Int.natCast_nonneg _,Int.ofNat_lt.mpr (rank_lt (hmem e he))⟩ }

end Identify

section Overlapping
attribute [local instance] mergeSorting

/-- Two threads whose operations overlap. -/
def overlapping : List (Event Bytes) :=
  let event (type : EventType) (timestampNs : UInt64) (threadId : UInt32) (ptr : Ptr) :
      Event Bytes :=
    { type, timestampNs, threadId, label := none
      data := ({ tensorPtr := ptr, opType := 0, opSize := 4, backendPtr := 0 } : OpData).toData }
  [event .opComputeBegin 5 9 128,event .opComputeBegin 6 7 256,event .opComputeEnd 8 7 256,
    event .opComputeEnd 9 9 128]

theorem identifiesEvents_overlapping :
    IdentifiesEvents ratArith overlapping
      (TimelineWidget.new.processEvents ratArith (fun a b => decide (a < b)) overlapping).1
      (TimelineWidget.new.processEvents ratArith (fun a b => decide (a < b)) overlapping).2 :=
  identifiesEvents_processEvents ratArith _ TimelineWidget.new (by decide) (by decide)

end Overlapping
end GgmlViz
