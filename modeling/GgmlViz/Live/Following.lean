import GgmlViz.Live.LiveSteps

/-! # The place in the file

Live mode remembers how many events the last reload found. When that is the number of events
of the content read last, a reload of a longer content goes on where the last one ended.
-/
namespace GgmlViz
open LittleEndian

/-- The file was created, or appended to, or left alone. -/
def Appended (a b : Option Bytes) : Prop := ∀ x ∈ a, ∃ y ∈ b, x <+: y

theorem Appended.of_none (b : Option Bytes) : Appended none b := by
  intro x hx
  cases hx

theorem Appended.of_prefix {a b : Bytes} (h : a <+: b) : Appended (some a) (some b) := by
  intro x hx
  cases hx
  exact ⟨b,rfl,h⟩

theorem Appended.trans {a b c : Option Bytes} (hab : Appended a b) (hbc : Appended b c) :
    Appended a c := by
  intro x hx
  obtain ⟨y,hy,hxy⟩ := hab x hx
  obtain ⟨z,hz,hyz⟩ := hbc y hy
  exact ⟨z,hz,hxy.trans hyz⟩

namespace LiveState

/-- The live events with their labels. -/
def shown (s : LiveState) : List (Event Bytes) := s.liveEvents.map (LiveEvent.read s.made)

/-- What the latest reload read. -/
def lastRead (s : LiveState) : Option Bytes := s.made.getLast?.map HeldReader.content

/-- The events of the content read last. -/
def seen (s : LiveState) : List (Event Bytes) := (s.lastRead.map decoded).getD []

end LiveState

open LiveState

/-- The remembered count is the number of events of the content read last. -/
structure Caught (s : LiveState) : Prop where
  held : s.liveTraceReader.isSome ∨ s.seen = []
  count : s.lastFileEventCount = s.seen.length

section Reload
variable {s : LiveState} {p : Poll} {fileStat : FileStat} {r : HeldReader}

theorem lastRead_reload (hlen : s.liveEvents.length ≤ maxEvents)
    (hr : s.reloadOf p = some (fileStat,r)) :
    (s.updateLiveData p).lastRead = some r.content := by
  rw [updateLiveData_of_reload hlen hr,LiveState.lastRead,List.getLast?_concat]
  rfl

theorem seen_reload (hlen : s.liveEvents.length ≤ maxEvents)
    (hr : s.reloadOf p = some (fileStat,r)) : (s.updateLiveData p).seen = r.events := by
  rw [LiveState.seen,lastRead_reload hlen hr,r.events_eq]
  rfl

theorem lastRead_quiet (hlen : s.liveEvents.length ≤ maxEvents) (hr : s.reloadOf p = none) :
    (s.updateLiveData p).lastRead = s.lastRead := by
  obtain ⟨check,heq⟩ := updateLiveData_of_none hlen hr
  rw [heq,LiveState.lastRead,LiveState.lastRead]

theorem seen_quiet (hlen : s.liveEvents.length ≤ maxEvents) (hr : s.reloadOf p = none) :
    (s.updateLiveData p).seen = s.seen := by
  rw [LiveState.seen,lastRead_quiet hlen hr,LiveState.seen]

theorem startIdx_le (k : ℕ) : s.startIdx k ≤ k := by
  unfold startIdx
  split <;> omega

theorem startIdx_eq_zero_iff (k : ℕ) : s.startIdx k = 0 ↔
    k < s.lastFileEventCount ∨ s.lastFileEventCount = 0 ∨ s.liveTraceReader = none := by
  unfold startIdx
  split
  · next hand =>
    have hne : s.liveTraceReader ≠ none := Option.isSome_iff_ne_none.mp hand.1
    constructor
    · intro hzero
      exact Or.inr (Or.inl hzero)
    · rintro (hlt | hzero | hnone)
      · omega
      · exact hzero
      · exact absurd hnone hne
  · next hno =>
    refine iff_of_true rfl ?_
    by_contra hcon
    obtain ⟨hle,hcon⟩ := not_or.mp hcon
    exact hno ⟨Option.isSome_iff_ne_none.mpr (not_or.mp hcon).2,by omega⟩

/-- A reload that finds an event knows from then on how many there are. -/
theorem Caught.of_found (hlen : s.liveEvents.length ≤ maxEvents)
    (hr : s.reloadOf p = some (fileStat,r)) (hne : r.events ≠ []) :
    Caught (s.updateLiveData p) := by
  have hpos := List.length_pos_iff.mpr hne
  constructor
  · left
    rw [updateLiveData_of_reload hlen hr]
    rfl
  · rw [seen_reload hlen hr,updateLiveData_of_reload hlen hr]
    dsimp only
    unfold startIdx
    by_cases hgoes : s.liveTraceReader.isSome ∧ s.lastFileEventCount ≤ r.events.length
    · rw [if_pos hgoes]
      split <;> omega
    · rw [if_neg hgoes,if_pos hpos]

namespace Caught

/-- The first events of the content are the ones seen so far, and that is where to go on. -/
theorem startIdx_eq (h : Caught s) (hgrow : Appended s.lastRead (some r.content)) :
    s.seen <+: r.events ∧ s.startIdx r.events.length = s.seen.length := by
  have hpre : s.seen <+: r.events := by
    cases hlast : s.made.getLast? with
    | none =>
      rw [LiveState.seen,LiveState.lastRead,hlast]
      exact List.nil_prefix
    | some held =>
      have hread : s.lastRead = some held.content := by rw [LiveState.lastRead,hlast]; rfl
      obtain ⟨y,hy,hpre⟩ := hgrow held.content hread
      cases hy
      rw [LiveState.seen,hread,r.events_eq]
      exact decoded_prefix hpre held.hasHeader
  refine ⟨hpre,?_⟩
  rw [startIdx,h.count]
  split
  · rfl
  · next hno =>
    rcases h.held with hheld | hseen
    · exact absurd ⟨hheld,hpre.length_le⟩ hno
    · rw [hseen]
      rfl

theorem quiet (h : Caught s) (hlen : s.liveEvents.length ≤ maxEvents)
    (hr : s.reloadOf p = none) : Caught (s.updateLiveData p) := by
  have hseen := seen_quiet hlen hr
  obtain ⟨check,heq⟩ := updateLiveData_of_none hlen hr
  constructor
  · rw [hseen,heq]
    exact h.held
  · rw [hseen,heq]
    exact h.count

theorem reload (h : Caught s) (hlen : s.liveEvents.length ≤ maxEvents)
    (hr : s.reloadOf p = some (fileStat,r)) (hgrow : Appended s.lastRead (some r.content)) :
    Caught (s.updateLiveData p) := by
  obtain ⟨hpre,hidx⟩ := h.startIdx_eq hgrow
  have hle := hpre.length_le
  have hcount := h.count
  constructor
  · left
    rw [updateLiveData_of_reload hlen hr]
    rfl
  · rw [seen_reload hlen hr,updateLiveData_of_reload hlen hr,hidx]
    dsimp only
    split <;> omega

end Caught
end Reload
end GgmlViz
