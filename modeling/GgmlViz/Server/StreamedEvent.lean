import GgmlViz.Trace.Format
import GgmlViz.Config.Config
import GgmlViz.Foundation.JsonText
import GgmlViz.Foundation.EventStream

/-! # Streamed events

The text that `LiveStreamServer` sends for an event: a JSON object, printed into a buffer of
512 bytes, as the data of a server-sent event. The label is what its pointer shows then.
-/
namespace GgmlViz
open LittleEndian JsonText

def eventTypeToString (type : EventType) : Bytes :=
  if type = .graphComputeBegin then ascii "graph_begin"
  else if type = .graphComputeEnd then ascii "graph_end"
  else if type = .opComputeBegin then ascii "op_begin"
  else if type = .opComputeEnd then ascii "op_end"
  else if type = .tensorAlloc then ascii "tensor_alloc"
  else if type = .tensorFree then ascii "tensor_free"
  else if type = .barrierWait then ascii "barrier_wait"
  else if type = .threadBegin then ascii "thread_begin"
  else if type = .threadFree then ascii "thread_free"
  else ascii "unknown"

/-- What `%s` prints for the label. -/
def shownLabel (e : Event Bytes) : Bytes := (e.label.map cString).getD (ascii "unknown")

/-- What `snprintf` leaves in a buffer of `size` bytes, before the terminator. -/
def snprintf (size : ℕ) (text : Bytes) : Bytes := text.take (size - 1)

def formatEventAsJson (e : Event Bytes) : Bytes :=
  cString (snprintf 512 (ascii "\x7b\"type\":\"" ++ eventTypeToString e.type ++
    ascii "\",\"timestamp\":" ++ decimal e.timestampNs.toNat ++
    ascii ",\"thread_id\":" ++ decimal e.threadId.toNat ++
    ascii ",\"label\":\"" ++ shownLabel e ++ ascii "\"\x7d"))

def sseMessage (e : Event Bytes) : Bytes :=
  ascii "data: " ++ formatEventAsJson e ++ ascii "\n\n"

/-- The object that a client is to see. -/
def streamedObject (e : Event Bytes) : Value :=
  .object [(ascii "type",.string (eventTypeToString e.type)),
    (ascii "timestamp",.number { mantissa := e.timestampNs.toNat, exponent := 0 }),
    (ascii "thread_id",.number { mantissa := e.threadId.toNat, exponent := 0 }),
    (ascii "label",.string (shownLabel e))]

/-- A client reads one message, whose data is a JSON text of the event, and waits for the next. -/
def WellStreamed (e : Event Bytes) : Prop :=
  ∃ m, (EventStream.Reader.fresh []).run (sseMessage e) = (EventStream.Reader.fresh [],[m]) ∧
    Denotes m.data (streamedObject e)

theorem render_streamedObject (e : Event Bytes) : (streamedObject e).render =
    ascii "\x7b\"type\":\"" ++ eventTypeToString e.type ++
    ascii "\",\"timestamp\":" ++ decimal e.timestampNs.toNat ++
    ascii ",\"thread_id\":" ++ decimal e.threadId.toNat ++
    ascii ",\"label\":\"" ++ shownLabel e ++ ascii "\"\x7d" := by
  simp [streamedObject,Value.render,renderMembers,quoted,ascii,renderInt_natCast]

theorem length_render_streamedObject (e : Event Bytes) : (streamedObject e).render.length =
    48 + ((eventTypeToString e.type).length + (decimal e.timestampNs.toNat).length +
      (decimal e.threadId.toNat).length + (shownLabel e).length) := by
  rw [render_streamedObject]
  simp only [List.length_append,ascii,List.length_map]
  simp
  omega

theorem plainText_ascii {s : String}
    (hs : s.toList.all (fun c => decide (PlainChar c ∧ c.toNat ≤ 0x7f)) = true) :
    PlainText (ascii s) := by
  have h : ∀ c ∈ s.toList, PlainChar c ∧ c.toNat ≤ 0x7f := by
    intro c hc
    exact of_decide_eq_true (List.all_eq_true.mp hs c hc)
  refine ⟨s.toList,fun c hc => (h c hc).1,?_⟩
  rw [ascii,← List.flatMap_singleton' (s.toList.map _),List.flatMap_map]
  apply List.flatMap_congr
  intro c hc
  exact (if_pos (h c hc).2).symm

theorem plainText_eventTypeToString (type : EventType) : PlainText (eventTypeToString type) := by
  unfold eventTypeToString
  repeat' split
  all_goals exact plainText_ascii (by decide)

theorem plain_streamedObject (e : Event Bytes) :
    (streamedObject e).Plain ↔ PlainText (shownLabel e) := by
  have htype := plainText_eventTypeToString e.type
  simp only [streamedObject,Value.Plain,membersPlain,and_true,true_and]
  constructor
  · exact fun h => h.2.2.2.2.2
  · intro h
    exact ⟨plainText_ascii (by decide),htype,plainText_ascii (by decide),
      plainText_ascii (by decide),plainText_ascii (by decide),h⟩

theorem formatEventAsJson_eq (e : Event Bytes) :
    formatEventAsJson e = cString ((streamedObject e).render.take 511) := by
  rw [render_streamedObject]
  rfl

/-- The text is cut off, but not made longer. -/
theorem length_formatEventAsJson_le (e : Event Bytes) : (formatEventAsJson e).length ≤ 511 ∧
    (formatEventAsJson e).length ≤ (streamedObject e).render.length := by
  have hcut : (formatEventAsJson e).length ≤ ((streamedObject e).render.take 511).length := by
    rw [formatEventAsJson_eq]
    exact (List.takeWhile_prefix _).length_le
  rw [List.length_take] at hcut
  omega

theorem printable_noBreak {s : Bytes} (h : Printable s) : EventStream.NoBreak s := by
  intro b hb
  have hle := h b hb
  constructor
  · rintro rfl
    exact absurd hle (by decide)
  · rintro rfl
    exact absurd hle (by decide)

theorem printable_nul {s : Bytes} (h : Printable s) : 0 ∉ s := fun hb =>
  absurd (h 0 hb) (by decide)

theorem formatEventAsJson_of_plain {e : Event Bytes} (hplain : PlainText (shownLabel e))
    (hlen : (streamedObject e).render.length ≤ 511) :
    formatEventAsJson e = (streamedObject e).render := by
  have hprintable := Value.printable_render _ ((plain_streamedObject e).mpr hplain)
  rw [formatEventAsJson_eq,List.take_of_length_le hlen,cString_eq_self (printable_nul hprintable)]

section Streamed
variable {e : Event Bytes}

/-- The object is never shorter than its rendering, and the message is never longer. -/
theorem WellStreamed.eq_render (h : WellStreamed e) :
    (streamedObject e).Plain ∧ formatEventAsJson e = (streamedObject e).render := by
  obtain ⟨m,hrun,hm⟩ := h
  have hshorter := (length_formatEventAsJson_le e).2
  have hdata : m.data.length ≤ (formatEventAsJson e).length := by
    apply EventStream.length_data_le (formatEventAsJson e) [] m
    exact (congrArg Prod.snd hrun).symm ▸ List.mem_singleton.mpr rfl
  obtain ⟨hplain,heq⟩ := denotes_shortest_iff.mp ⟨hm,hdata.trans hshorter⟩
  have hwhole : (formatEventAsJson e).length = (streamedObject e).render.length := by
    rw [heq] at hdata
    exact Nat.le_antisymm hshorter hdata
  refine ⟨hplain,?_⟩
  have hprintable := Value.printable_render _ hplain
  have hfits : (streamedObject e).render.length ≤ 511 := hwhole ▸ (length_formatEventAsJson_le e).1
  exact formatEventAsJson_of_plain ((plain_streamedObject e).mp hplain) hfits

theorem wellStreamed_of_eq_render (hplain : (streamedObject e).Plain)
    (hjson : formatEventAsJson e = (streamedObject e).render) : WellStreamed e := by
  have hbreaks := printable_noBreak (Value.printable_render _ hplain)
  have hmessage : sseMessage e = EventStream.dataMessage (streamedObject e).render := by
    rw [sseMessage,hjson]
    rfl
  have hrun := EventStream.run_dataMessage hbreaks []
  rw [← hmessage] at hrun
  exact ⟨_,hrun,Value.text_render _ hplain⟩

/-- Over a whole connection a client reads the events one by one. -/
theorem run_wellStreamed {es : List (Event Bytes)} (h : ∀ e ∈ es, WellStreamed e) :
    ∃ ms, (EventStream.Reader.fresh []).run (es.flatMap sseMessage) =
      (EventStream.Reader.fresh [],ms) ∧
      List.Forall₂ (fun e m => Denotes m.data (streamedObject e)) es ms := by
  induction es with
  | nil => exact ⟨[],rfl,.nil⟩
  | cons e es ih =>
    obtain ⟨⟨m,hrun,hm⟩,hes⟩ := List.forall_mem_cons.mp h
    obtain ⟨ms,hruns,hms⟩ := ih hes
    refine ⟨m :: ms,?_,.cons hm hms⟩
    rw [List.flatMap_cons,EventStream.run_append,hrun,hruns]
    rfl

end Streamed

/-- An event is streamed as a message with a JSON object exactly if its label needs no escapes
and its text fits the buffer. -/
theorem wellStreamed_iff (e : Event Bytes) : WellStreamed e ↔ PlainText (shownLabel e) ∧
    (eventTypeToString e.type).length + (decimal e.timestampNs.toNat).length +
      (decimal e.threadId.toNat).length + (shownLabel e).length ≤ 463 := by
  have hsum := length_render_streamedObject e
  constructor
  · intro h
    obtain ⟨hplain,hjson⟩ := h.eq_render
    have hbuffer := (length_formatEventAsJson_le e).1
    rw [hjson] at hbuffer
    exact ⟨(plain_streamedObject e).mp hplain,by omega⟩
  · rintro ⟨hlabel,hlen⟩
    have hplain := (plain_streamedObject e).mpr hlabel
    exact wellStreamed_of_eq_render hplain (formatEventAsJson_of_plain hlabel (by omega))

/-- A label of two lines. -/
theorem not_wellStreamed_twoLines : ¬∀ e : Event Bytes, WellStreamed e := by
  intro h
  let e : Event Bytes :=
    { type := .tensorFree, timestampNs := 7, threadId := 1,
      data := { ptr := 64, size := 0 : MemoryData }.toData, label := some (ascii "a\nb") }
  have hplain : PlainText (shownLabel e) := (plain_streamedObject e).mp (h e).eq_render.1
  exact absurd (hplain.printable 10 (by decide)) (by decide)

end GgmlViz
