import GgmlViz.Hook.Progress

/-! # The ring and what was recorded

While one thread runs the hook, its counters tell how many events the session has recorded,
and the ring still holds those from the read position on.
-/
namespace GgmlViz
open LittleEndian RingWindow
variable {L : Type}

/-- The events of the session, of which the ring holds those from an earlier read position on. -/
structure RingSince (lo : ℕ) (recorded : List (Event L)) (s : HookState L) : Prop where
  position : s.writePos = recorded.length
  count : s.eventCount = recorded.length
  small : recorded.length < 2^64
  window : Window bufferSize s.eventBuffer recorded lo
  lo_le : lo ≤ s.readPos
  readPos_le : s.readPos ≤ recorded.length

/-- The events of the session, of which the ring holds the unread ones. -/
abbrev RingLog (recorded : List (Event L)) (s : HookState L) : Prop :=
  RingSince s.readPos recorded s

variable {text : L → Bytes} {cfg : Config} {lo : ℕ} {recorded : List (Event L)}
  {s t : HookState L}

theorem ringLog_zero (hwrite : s.writePos = 0) (hcount : s.eventCount = 0) (hread : s.readPos = 0) :
    RingLog [] s where
  position := hwrite
  count := hcount
  small := Nat.two_pow_pos 64
  window := by
    rw [hread]
    exact Window.nil (by decide) _
  lo_le := Nat.le_refl _
  readPos_le := Nat.le_of_eq hread

theorem ringLog_start (hactive : s.active = false) (henabled : cfg.hooksEnabled = true)
    (opens : Bool) : RingLog [] (s.start cfg opens) := by
  have hzero : (s.start cfg opens).writePos = 0 ∧ (s.start cfg opens).eventCount = 0 ∧
      (s.start cfg opens).readPos = 0 := by
    rw [HookState.start_of_inactive henabled hactive]
    cases cfg.output.writeToFile <;> cases opens <;> simp [HookState.fopen]
  exact ringLog_zero hzero.1 hzero.2.1 hzero.2.2

namespace RingSince

theorem now (h : RingSince lo recorded s) : RingLog recorded s :=
  { h with
    window := h.window.advance h.lo_le h.readPos_le
    lo_le := Nat.le_refl _ }

/-- Between the two read positions the ring has the events that were read. -/
theorem cells_eq (h : RingSince lo recorded s) :
    cells bufferSize s.eventBuffer lo s.readPos = (recorded.drop lo).take (s.readPos - lo) :=
  h.window.cells_eq h.lo_le h.readPos_le

theorem unread_eq (h : RingLog recorded s) :
    cells bufferSize s.eventBuffer s.readPos s.writePos = recorded.drop s.readPos := by
  rw [h.position]
  exact h.window.unread_eq

/-- The read position goes on, and other members may change. -/
theorem read (h : RingSince lo recorded s) (hwrite : t.writePos = s.writePos)
    (hcount : t.eventCount = s.eventCount) (hbuffer : t.eventBuffer = s.eventBuffer)
    (hle : s.readPos ≤ t.readPos) (hread : t.readPos ≤ s.writePos) : RingSince lo recorded t where
  position := hwrite.trans h.position
  count := hcount.trans h.count
  small := h.small
  window := by
    rw [hbuffer]
    exact h.window
  lo_le := h.lo_le.trans hle
  readPos_le := hread.trans (Nat.le_of_eq h.position)

theorem readPos_le_writePos (h : RingSince lo recorded s) : s.readPos ≤ s.writePos :=
  h.readPos_le.trans (Nat.le_of_eq h.position.symm)

theorem same (h : RingSince lo recorded s) (hwrite : t.writePos = s.writePos)
    (hcount : t.eventCount = s.eventCount) (hbuffer : t.eventBuffer = s.eventBuffer)
    (hread : t.readPos = s.readPos) : RingSince lo recorded t :=
  h.read hwrite hcount hbuffer (Nat.le_of_eq hread.symm)
    ((Nat.le_of_eq hread).trans h.readPos_le_writePos)

theorem store (h : RingLog recorded s) (e : Event L)
    (hfree : slot (increment s.writePos) ≠ slot s.readPos)
    (hroom : recorded.length + 1 < 2^64) :
    RingSince s.readPos (recorded ++ [e]) (s.store e) := by
  have hnext : increment s.writePos = recorded.length + 1 := by
    rw [h.position]
    exact increment_of_lt hroom
  have hspace : recorded.length + 1 < s.readPos + bufferSize := by
    have hfits := h.window.fits
    rw [hnext,slot_eq_mod,slot_eq_mod,Ne,next_mod_eq_iff h.window.lo_le hfits] at hfree
    omega
  have hlen : (recorded ++ [e]).length = recorded.length + 1 := by simp
  exact
    { position := hnext.trans hlen.symm
      count := by
        rw [hlen]
        change increment s.eventCount = _
        rw [h.count]
        exact increment_of_lt hroom
      small := hlen ▸ hroom
      window := by
        have hpush := h.window.push e hspace
        rw [← slot_eq_mod,← h.position] at hpush
        exact hpush
      lo_le := Nat.le_refl _
      readPos_le := by
        have hle := h.readPos_le
        rw [hlen]
        exact Nat.le_succ_of_le hle }

theorem flush (h : RingSince lo recorded s) : RingSince lo recorded (s.flushToFile text) := by
  obtain ⟨-,hcount,hbuffer,hwrite,-,hread⟩ := HookState.flushToFile_fields text s
  have hle := h.readPos_le_writePos
  apply h.read hwrite hcount hbuffer
  · rw [hread]
    split <;> omega
  · rw [hread]
    split <;> omega

theorem stop (h : RingSince lo recorded s) : RingSince lo recorded (s.stop text) := by
  have hoff : RingSince lo recorded { s with active := false } := h.same rfl rfl rfl rfl
  unfold HookState.stop
  split
  · exact h
  · dsimp only
    split
    · have hflush : RingSince lo recorded (HookState.flushToFile text { s with active := false }) :=
        hoff.flush
      exact hflush.same rfl rfl rfl rfl
    · exact hoff

theorem graphEndFlush (h : RingSince lo recorded s) :
    RingSince lo recorded (s.graphEndFlush text cfg) := by
  unfold HookState.graphEndFlush
  split
  · exact h.flush
  · exact h

/-- Recording may store the event, and may write what is unread. -/
theorem recordEvent (h : RingLog recorded s) (e : Event L) : RingSince s.readPos
    (recorded ++ s.storedSince (s.recordEvent text cfg e)) (s.recordEvent text cfg e) := by
  cases hactive : s.active with
  | false =>
    rw [HookState.recordEvent_inactive hactive,HookState.storedSince,if_pos rfl,List.append_nil]
    exact h
  | true =>
    rcases HookState.recordEvent_cases text cfg hactive e with
      ⟨-,hrec⟩ | ⟨-,-,hrec⟩ | ⟨hbelow,hfree,hrec⟩
    · rw [hrec,HookState.storedSince,if_pos (HookState.stop_writePos s),List.append_nil]
      exact h.stop
    · rw [hrec,HookState.storedSince,if_pos rfl,List.append_nil]
      exact h.same rfl rfl rfl rfl
    · have hmax := cfg.instrumentation.maxEvents.toNat_lt
      have hstore := h.store e hfree (by rw [h.count] at hbelow; omega)
      obtain ⟨-,-,hbuffer,hwrite,-⟩ := HookState.flushToFile_fields text (s.store e)
      have hstored : s.storedSince (s.store e) = [e] := by
        simp [HookState.storedSince,HookState.store,HookState.increment_ne]
      have hflushed : s.storedSince ((s.store e).flushToFile text) = [e] := by
        rw [HookState.storedSince,hbuffer,hwrite]
        exact hstored
      rw [hrec]
      split
      · rw [hflushed]
        exact hstore.flush
      · rw [hstored]
        exact hstore

theorem consume (h : RingLog recorded s) (hactive : s.active = true) : s.consumeAvailableEvents =
    some ({ s with readPos := s.writePos },recorded.drop s.readPos) := by
  have hsmall := h.small
  have hfits := h.window.fits
  rw [← h.position] at hsmall hfits
  rw [HookState.consumeAvailableEvents_eq hactive h.readPos_le_writePos hsmall hfits,h.unread_eq]

end RingSince

end GgmlViz
