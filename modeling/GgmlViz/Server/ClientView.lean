import GgmlViz.Foundation.Http
import GgmlViz.Hook.Intercept
import GgmlViz.Server.Delivery
import GgmlViz.Server.StreamedEvent

/-! # What the clients of the live server see

`handle_client` answers a request with a stream of events, with its status or with a page. A
client has at any time some first part of what was sent to it, and shows the first of its
events.
-/
namespace GgmlViz
open LittleEndian JsonText

/-- What `handle_client` does with what `recv` has returned. -/
inductive Answer
  /-- Nothing was received. -/
  | close
  | events
  | status
  | dashboard
  deriving DecidableEq

def handleClient (received : Bytes) : Answer :=
  let request := cString received
  if received = [] then .close
  else if ascii "GET /events" <+: request then .events
  else if ascii "GET /status" <+: request then .status
  else .dashboard

def eventsHeaders : Bytes :=
  ascii "HTTP/1.1 200 OK\r\n" ++
  ascii "Content-Type: text/event-stream\r\n" ++
  ascii "Cache-Control: no-cache\r\n" ++
  ascii "Connection: keep-alive\r\n" ++
  ascii "Access-Control-Allow-Origin: *\r\n" ++
  ascii "\r\n"

def statusHeaders : Bytes :=
  ascii "HTTP/1.1 200 OK\r\n" ++
  ascii "Content-Type: application/json\r\n" ++
  ascii "Access-Control-Allow-Origin: *\r\n" ++
  ascii "\r\n"

def statusJson (connectedClients queueSize : ℕ) : Bytes :=
  cString (snprintf 512 (statusHeaders ++
    ascii "\x7b\"status\":\"running\",\"clients\":" ++ decimal connectedClients ++
    ascii ",\"events_queued\":" ++ decimal queueSize ++ ascii "\x7d\r\n"))

def dashboardPage : Bytes :=
  ascii "<!DOCTYPE html><html><head><title>GGML Visualizer Live</title></head>" ++
  ascii "<body><h1>GGML Visualizer Live Stream</h1>" ++
  ascii "<p>Status: <span id='status'>Connecting...</span></p>" ++
  ascii "<p>Events: <span id='events'>0</span></p>" ++
  ascii "<div id='log'></div>" ++
  ascii "<script>" ++
  ascii "const eventSource = new EventSource('/events');" ++
  ascii "let eventCount = 0;" ++
  ascii "eventSource.onmessage = function(e) \x7b" ++
  ascii "  eventCount++;" ++
  ascii "  document.getElementById('events').textContent = eventCount;" ++
  ascii "  document.getElementById('status').textContent = 'Connected';" ++
  ascii "  const log = document.getElementById('log');" ++
  ascii "  const div = document.createElement('div');" ++
  ascii "  div.textContent = new Date().toLocaleTimeString() + ': ' + e.data;" ++
  ascii "  log.appendChild(div);" ++
  ascii "  if (log.children.length > 100) log.removeChild(log.firstChild);" ++
  ascii "\x7d;" ++
  ascii "eventSource.onerror = function() \x7b" ++
  ascii "  document.getElementById('status').textContent = 'Disconnected';" ++
  ascii "\x7d;" ++
  ascii "</script></body></html>"

def dashboardHtml : Bytes :=
  ascii "HTTP/1.1 200 OK\r\n" ++
  ascii "Content-Type: text/html\r\n" ++
  ascii "\r\n" ++
  dashboardPage

/-- What is sent at once; the events follow. -/
def Answer.firstSend (connectedClients queueSize : ℕ) : Answer → Bytes
  | .close => []
  | .events => eventsHeaders
  | .status => statusJson connectedClients queueSize
  | .dashboard => dashboardHtml

section Heads

def contentType : Bytes := ascii "Content-Type"

/-- The heads of the three answers. -/
def okHead (type : String) (fields : List (Bytes × Bytes)) : Http.Head where
  status := ascii "HTTP/1.1 200 OK"
  fields := (contentType,ascii type) :: fields

def allowOrigin : Bytes × Bytes := (ascii "Access-Control-Allow-Origin",ascii "*")

def eventsHead : Http.Head :=
  okHead "text/event-stream" [(ascii "Cache-Control",ascii "no-cache"),
    (ascii "Connection",ascii "keep-alive"),allowOrigin]

def statusHead : Http.Head := okHead "application/json" [allowOrigin]

def dashboardHead : Http.Head := okHead "text/html" []

/-- A successful answer of this type. -/
def Succeeds (type : Bytes) (h : Http.Head) : Prop :=
  h.statusCode = ascii "200" ∧ h.value contentType = some type

instance (type : Bytes) (h : Http.Head) : Decidable (Succeeds type h) :=
  inferInstanceAs (Decidable (_ ∧ _))

theorem eventsHead_fits : eventsHead.Fits := ⟨by decide,by decide⟩

theorem statusHead_fits : statusHead.Fits := ⟨by decide,by decide⟩

theorem dashboardHead_fits : dashboardHead.Fits := ⟨by decide,by decide⟩

theorem eventsHeaders_eq : eventsHeaders = eventsHead.render := by decide

theorem statusHeaders_eq : statusHeaders = statusHead.render := by decide

theorem eventsHead_succeeds : Succeeds (ascii "text/event-stream") eventsHead := by decide

theorem statusHead_succeeds : Succeeds (ascii "application/json") statusHead := by decide

theorem dashboardHead_succeeds : Succeeds (ascii "text/html") dashboardHead := by decide

end Heads

section Status

/-- The object that a client is to see. -/
def statusObject (connectedClients queueSize : ℕ) : Value :=
  .object [(ascii "status",.string (ascii "running")),
    (ascii "clients",.number { mantissa := connectedClients, exponent := 0 }),
    (ascii "events_queued",.number { mantissa := queueSize, exponent := 0 })]

variable {connectedClients queueSize : ℕ}

theorem plain_statusObject : (statusObject connectedClients queueSize).Plain := by
  simp only [statusObject,Value.Plain,membersPlain,and_true,true_and]
  exact ⟨plainText_ascii (by decide),plainText_ascii (by decide),plainText_ascii (by decide),
    plainText_ascii (by decide)⟩

theorem render_statusObject : (statusObject connectedClients queueSize).render =
    ascii "\x7b\"status\":\"running\",\"clients\":" ++ decimal connectedClients ++
    ascii ",\"events_queued\":" ++ decimal queueSize ++ ascii "\x7d" := by
  simp [statusObject,Value.render,renderMembers,quoted,ascii,renderInt_natCast]

/-- Two numbers of 64 bits leave the buffer large enough. -/
theorem statusJson_eq (hclients : connectedClients < 2 ^ 64) (hqueue : queueSize < 2 ^ 64) :
    statusJson connectedClients queueSize =
      statusHead.render ++ ((statusObject connectedClients queueSize).render ++ Http.crlf) := by
  have hfirst : (decimal connectedClients).length ≤ 20 :=
    length_decimal_le (by decide) (hclients.trans (by decide))
  have hsecond : (decimal queueSize).length ≤ 20 :=
    length_decimal_le (by decide) (hqueue.trans (by decide))
  have hobject : (statusObject connectedClients queueSize).render.length ≤ 88 := by
    rw [render_statusObject]
    simp only [List.length_append,ascii,List.length_map]
    simp
    omega
  have hheaders : statusHeaders.length = 83 := by decide
  let whole := statusHeaders ++ ((statusObject connectedClients queueSize).render ++ Http.crlf)
  have hfits : whole.length ≤ 511 := by
    simp only [whole,List.length_append,hheaders,Http.crlf,List.length_cons,List.length_nil]
    omega
  have hnul : 0 ∉ whole := by
    have hheaders : 0 ∉ statusHeaders := by decide
    have hplain : (statusObject connectedClients queueSize).Plain := plain_statusObject
    have hobject := printable_nul (Value.printable_render _ hplain)
    simp [whole,hheaders,hobject,Http.crlf]
  have hprinted : statusJson connectedClients queueSize = cString (snprintf 512 whole) := by
    simp only [whole,render_statusObject,statusJson,List.append_assoc]
    rfl
  rw [hprinted,snprintf,List.take_of_length_le hfits,cString_eq_self hnul,← statusHeaders_eq]

/-- The status is read as an object with these numbers. -/
theorem response_statusJson (hclients : connectedClients < 2 ^ 64) (hqueue : queueSize < 2 ^ 64) :
    ∃ body, (Http.Reader.start.run (statusJson connectedClients queueSize)).response =
        some (statusHead,body) ∧ Denotes body (statusObject connectedClients queueSize) := by
  rw [statusJson_eq hclients hqueue,Http.response_render statusHead_fits]
  have hobject : Denotes (statusObject connectedClients queueSize).render
      (statusObject connectedClients queueSize) := Value.text_render _ plain_statusObject
  have hend : Blank Http.crlf := by simp [Blank,Http.crlf]
  exact ⟨_,rfl,hobject.append_blank hend⟩

end Status

/-- What a client reads of an answer that is not yet followed by events. -/
def Answer.Reads (connectedClients queueSize : ℕ) : Answer → Option (Http.Head × Bytes) → Prop
  | .close, read => read = none
  | .events, read => ∃ head, read = some (head,[]) ∧ Succeeds (ascii "text/event-stream") head
  | .status, read => ∃ head body, read = some (head,body) ∧
    Succeeds (ascii "application/json") head ∧
      Denotes body (statusObject connectedClients queueSize)
  | .dashboard, read =>
    ∃ head, read = some (head,dashboardPage) ∧ Succeeds (ascii "text/html") head

theorem reads_firstSend {connectedClients queueSize : ℕ} (hclients : connectedClients < 2 ^ 64)
    (hqueue : queueSize < 2 ^ 64) (a : Answer) : a.Reads connectedClients queueSize
      (Http.Reader.start.run (a.firstSend connectedClients queueSize)).response := by
  cases a with
  | close => rfl
  | events =>
    have hread := Http.response_render eventsHead_fits []
    rw [List.append_nil,← eventsHeaders_eq] at hread
    exact ⟨eventsHead,hread,eventsHead_succeeds⟩
  | status =>
    obtain ⟨body,hread,hbody⟩ := response_statusJson hclients hqueue
    exact ⟨statusHead,body,hread,statusHead_succeeds,hbody⟩
  | dashboard =>
    have hread := Http.response_render dashboardHead_fits dashboardPage
    have hhead : dashboardHead.render =
        ascii "HTTP/1.1 200 OK\r\n" ++ ascii "Content-Type: text/html\r\n" ++ ascii "\r\n" := by
      decide
    rw [hhead] at hread
    exact ⟨dashboardHead,hread,dashboardHead_succeeds⟩

/-- What a client makes of a part of an answer to which it listens for events. -/
def eventSource (arrived : Bytes) : List EventStream.Message :=
  match (Http.Reader.start.run arrived).response with
  | none => []
  | some (head,body) =>
    if Succeeds (ascii "text/event-stream") head then ((EventStream.Reader.fresh []).run body).2
    else []

/-- The label as the server prints it. -/
def Event.printed {L : Type} (text : L → Bytes) (e : Event L) : Event Bytes :=
  { e with label := e.label.map text }

section Streams
variable {L : Type} (text : L → Bytes)

/-- The label can be sent as it is. -/
def PlainLabel (e : Event L) : Prop :=
  ∀ l, e.label = some l → PlainText (cString (text l)) ∧ strlen (text l) < ggmlMaxName

/-- The messages are objects of these events, one for each. -/
def ShowsEvents (es : List (Event L)) (ms : List EventStream.Message) : Prop :=
  List.Forall₂ (fun e m => Denotes m.data (streamedObject (e.printed text))) es ms

/-- What a client that asked for the events has been sent. -/
def LiveServer.sentTo (w : LiveServer L) (i : ℕ) : Bytes :=
  match w.stream.clients i with
  | .absent => []
  | _ => eventsHeaders ++ (w.stream.received i).flatMap (fun e => sseMessage (e.printed text))

/-- What the clients of the server see. -/
structure ClientsSee (w : LiveServer L) : Prop where
  /-- Whatever part has arrived, the first events are shown, in order. -/
  shows : ∀ i arrived, arrived <+: w.sentTo text i →
    ∃ n, ShowsEvents text ((w.stream.received i).take n) (eventSource arrived)
  /-- When everything has arrived, all are. -/
  complete : ∀ i, w.stream.clients i ≠ .absent →
    ShowsEvents text (w.stream.received i) (eventSource (w.sentTo text i))
  inOrder : ∀ i, (w.stream.received i).Sublist w.hook.accepted
  /-- Every request has its answer; the status tells how many events are queued. -/
  answers : ∀ received : Bytes, ∀ connectedClients < 2 ^ 64,
    (handleClient received).Reads connectedClients w.stream.eventQueue.length
      (Http.Reader.start.run ((handleClient received).firstSend connectedClients
        w.stream.eventQueue.length)).response

variable {text}

theorem length_eventTypeToString_le (type : EventType) :
    (eventTypeToString type).length ≤ 12 := by
  unfold eventTypeToString
  repeat' split
  all_goals exact Nat.le_of_ble_eq_true (by decide)

/-- Names of ggml are short enough for the buffer. -/
theorem wellStreamed_printed {e : Event L} (h : PlainLabel text e) :
    WellStreamed (e.printed text) := by
  have htype := length_eventTypeToString_le e.type
  have htime : (decimal e.timestampNs.toNat).length ≤ 20 :=
    length_decimal_le (by decide) (e.timestampNs.toNat_lt.trans (by decide))
  have hthread : (decimal e.threadId.toNat).length ≤ 10 :=
    length_decimal_le (by decide) (e.threadId.toNat_lt.trans (by decide))
  have hlabel : PlainText (shownLabel (e.printed text)) ∧
      (shownLabel (e.printed text)).length < ggmlMaxName := by
    have hunknown : (ascii "unknown").length < ggmlMaxName := by decide
    unfold shownLabel Event.printed
    cases hl : e.label with
    | none => exact ⟨plainText_ascii (by decide),hunknown⟩
    | some l => exact h l hl
  have hobject := length_render_streamedObject (e.printed text)
  have hplain := (plain_streamedObject (e.printed text)).mpr hlabel.1
  refine wellStreamed_of_eq_render hplain (formatEventAsJson_of_plain hlabel.1 ?_)
  have hname := hlabel.2
  simp only [ggmlMaxName] at hname
  rw [hobject]
  simp only [Event.printed] at hname ⊢
  omega

section Parts
variable {es : List (Event L)} (h : ∀ e ∈ es, PlainLabel text e)
include h

/-- The body of a stream: all of it shows the events, and a part of it the first ones. -/
theorem run_printed : ∃ ms, (EventStream.Reader.fresh []).run
    (es.flatMap (fun e => sseMessage (e.printed text))) = (EventStream.Reader.fresh [],ms) ∧
      ShowsEvents text es ms := by
  have hstreamed : ∀ e ∈ es.map (Event.printed text), WellStreamed e := by
    intro shown hshown
    obtain ⟨e,he,rfl⟩ := List.mem_map.mp hshown
    exact wellStreamed_printed (h e he)
  obtain ⟨ms,hrun,hms⟩ := run_wellStreamed hstreamed
  rw [List.flatMap_map] at hrun
  exact ⟨ms,hrun,List.forall₂_map_left_iff.mp hms⟩

theorem shows_part {body : Bytes}
    (hbody : body <+: es.flatMap (fun e => sseMessage (e.printed text))) :
    ∃ n, ShowsEvents text (es.take n) ((EventStream.Reader.fresh []).run body).2 := by
  obtain ⟨ms,hrun,hms⟩ := run_printed h
  obtain ⟨rest,hrest⟩ := hbody
  rw [← hrest,EventStream.run_append] at hrun
  have hsplit := congrArg Prod.snd hrun
  dsimp only at hsplit
  rw [← hsplit] at hms
  exact ⟨_,List.forall₂_take_append _ _ _ hms⟩

theorem eventSource_whole :
    ShowsEvents text es
      (eventSource (eventsHeaders ++ es.flatMap (fun e => sseMessage (e.printed text)))) := by
  obtain ⟨ms,hrun,hms⟩ := run_printed h
  rw [eventSource,eventsHeaders_eq,Http.response_render eventsHead_fits]
  dsimp only
  rw [if_pos eventsHead_succeeds,hrun]
  exact hms

theorem eventSource_part {arrived : Bytes}
    (harrived : arrived <+: eventsHeaders ++ es.flatMap (fun e => sseMessage (e.printed text))) :
    ∃ n, ShowsEvents text (es.take n) (eventSource arrived) := by
  rw [eventsHeaders_eq] at harrived
  rw [eventSource]
  rcases Http.response_part eventsHead_fits harrived with hnone | ⟨body,hbody,hsome⟩
  · rw [hnone]
    exact ⟨0,.nil⟩
  · rw [hsome]
    dsimp only
    rw [if_pos eventsHead_succeeds]
    exact shows_part h hbody

end Parts
end Streams

section Matmul

def matmulName (_ : Unit) : Bytes := ascii "MUL_MAT"

theorem plainLabel_matmul (e : Event Unit) : PlainLabel matmulName e := by
  rintro ⟨⟩ _
  have hname : cString (matmulName ()) = matmulName () := cString_eq_self (by decide)
  rw [strlen,hname]
  exact ⟨plainText_ascii (by decide),by decide⟩

end Matmul
end GgmlViz
