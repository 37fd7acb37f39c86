import GgmlViz.Frontend.LoadTrace
import GgmlViz.Frontend.TimelineWidget
import GgmlViz.Foundation.Transition

/-! # The frames of the application

`render_frame` polls the live data and draws the menu, the file browser and the views, each
of which acts on what the user does in it. A state is reached by the start in `main` and any
number of frames.
-/
namespace GgmlViz
open LittleEndian

/-- The parts of `ImGuiApp` that the menu, the timeline and the inspector use. -/
structure ImGuiApp where
  data : AppData
  showTimeline : Bool
  showTensorInspector : Bool
  showFileBrowser : Bool
  timelineWidget : TimelineWidget
  windowShouldClose : Bool

inductive MenuItem
  | openTrace
  | closeTrace
  | exit
  | timeline
  | tensorInspector
  deriving DecidableEq

/-- What is pressed in the file browser. -/
inductive BrowserInput
  | nothing
  | closed
  | «open» (filePath : Bytes) (access : FileAccess)
  | cancel

/-- The tab that is shown, and the entry or the row that is clicked. -/
inductive TimelineTab
  | visual (click : Option ℕ)
  | events (click : Option ℕ)
  | opTimings

def TimelineTab.click : TimelineTab → Option ℕ
  | .visual click | .events click => click
  | .opTimings => none

structure FrameInput where
  poll : Poll
  menu : MenuItem → Bool
  browser : BrowserInput
  /-- The timeline window is collapsed otherwise. -/
  tab : Option TimelineTab
  inspectorOpen : Bool
  /-- The button of the error popup. -/
  ok : Bool

/-- Nothing is opened in the file browser. -/
def FrameInput.Stays (i : FrameInput) : Prop :=
  ∀ filePath access, i.browser ≠ .open filePath access

inductive MenuStatus
  | none
  | live (events : ℕ)
  | loaded (filename : Bytes) (events : ℕ)

inductive Inspected
  /-- The window is not drawn. -/
  | none
  /-- Select an event from the timeline to inspect. -/
  | prompt
  | live (e : LiveEvent)
  | loaded (e : Event Bytes)

/-- What a frame shows. -/
structure DrawnFrame (F : Type) where
  status : MenuStatus
  /-- The entries of the visual timeline, if it is drawn. -/
  timeline : Option (List (TimelineEvent F))
  inspected : Inspected

namespace AppData

/-- `enable_live_mode`, without what it does to the hook. -/
def enableLiveMode (traceFile : Bytes) (env : Option Bytes) (d : AppData) : AppData :=
  { d with live := d.live.enableLiveMode traceFile env, currentFilename := ascii "[Live Mode]" }

def closeTrace (d : AppData) : AppData :=
  { d with traceReader := none, traceLoaded := false, currentFilename := [] }

/-- `live_trace_reader` -/
def liveReader (d : AppData) : Option HeldReader :=
  d.live.liveTraceReader.bind (fun i => d.live.made[i]?)

/-- `trace_reader_for_widget` -/
def widgetReader (d : AppData) : Option HeldReader :=
  if d.live.liveMode && d.liveReader.isSome then d.liveReader else d.traceReader

/-- How many rows the list of events has, if there is one. -/
def rows (d : AppData) : Option ℕ :=
  if d.live.liveMode then some d.live.liveEvents.length
  else d.traceReader.map (fun r => r.events.length)

/-- `data_->selected_event >= 0 && data_->selected_event < static_cast<int>(size)` -/
def Selects (size : ℕ) (d : AppData) : Prop :=
  0 ≤ d.selectedEvent ∧ d.selectedEvent < Int32.ofNat size

instance (size : ℕ) (d : AppData) : Decidable (d.Selects size) :=
  inferInstanceAs (Decidable (_ ∧ _))

/-- The selected event of a list. -/
def selectedOf {E : Type} (d : AppData) (events : List E) : Option E :=
  if d.Selects events.length then events[d.selectedEvent.toInt.toNat]? else none

/-- `render_tensor_inspector` -/
def inspect (d : AppData) : Inspected :=
  if d.live.liveMode then
    match d.selectedOf d.live.liveEvents with
    | some e => .live e
    | none => .prompt
  else
    match d.traceReader with
    | none => .prompt
    | some r =>
      match d.selectedOf r.events with
      | some e => .loaded e
      | none => .prompt

/-- The status in the menu bar; `trace_reader` is used without a test. -/
def menuStatus (d : AppData) : Option MenuStatus :=
  if d.traceLoaded || d.live.liveMode then
    if d.live.liveMode then some (.live d.live.liveEvents.length)
    else d.traceReader.map (fun r => .loaded d.currentFilename r.events.length)
  else some .none

end AppData

section Widget
variable [StdSort] {F : Type} (fl : FloatArith F) (lt : F → F → Bool)

/-- `TimelineWidget::render`: a click selects the first entry under the mouse. -/
def TimelineWidget.render (events : List (Event Bytes)) (click : Option ℕ) (w : TimelineWidget) :
    TimelineWidget × List (TimelineEvent F) :=
  if events.length = 0 then (w,[])
  else
    let (w,entries) := w.processEvents fl lt events
    match click.bind (fun k => entries[k]?) with
    | some x => ({ w with selectedEvent := x.eventIndex },entries)
    | none => (w,entries)

end Widget

namespace ImGuiApp

def start : ImGuiApp where
  data := .start
  showTimeline := true
  showTensorInspector := true
  showFileBrowser := false
  timelineWidget := .new
  windowShouldClose := false

def updateLiveData (p : Poll) (app : ImGuiApp) : ImGuiApp :=
  { app with data := { app.data with live := app.data.live.updateLiveData p } }

/-- The items of the menu `File`; a trace can be closed when one is loaded. -/
def fileMenu (menu : MenuItem → Bool) (app : ImGuiApp) : ImGuiApp :=
  { app with
    showFileBrowser := app.showFileBrowser || menu .openTrace
    data :=
      if menu .closeTrace && app.data.traceLoaded then app.data.closeTrace else app.data
    windowShouldClose := app.windowShouldClose || menu .exit }

/-- The items of the menu `View` toggle, when there is something to view. -/
def viewMenu (menu : MenuItem → Bool) (app : ImGuiApp) : ImGuiApp :=
  let enabled := app.data.traceLoaded || app.data.live.liveMode
  { app with
    showTimeline := app.showTimeline ^^ (menu .timeline && enabled)
    showTensorInspector := app.showTensorInspector ^^ (menu .tensorInspector && enabled) }

def renderMainMenuBar (menu : MenuItem → Bool) (app : ImGuiApp) : Option (ImGuiApp × MenuStatus) :=
  let app := (app.fileMenu menu).viewMenu menu
  app.data.menuStatus.map (fun status => (app,status))

def renderFileBrowser (browser : BrowserInput) (app : ImGuiApp) : ImGuiApp :=
  match browser with
  | .nothing => app
  | .closed | .cancel => { app with showFileBrowser := false }
  | .open filePath access =>
    if filePath ≠ [] then
      let (data,loaded) := app.data.loadTraceFile filePath access
      { app with data, showFileBrowser := !loaded }
    else app

section Views
variable [StdSort] {F : Type} (fl : FloatArith F) (lt : F → F → Bool)

def renderTimelineView (tab : TimelineTab) (app : ImGuiApp) :
    ImGuiApp × Option (List (TimelineEvent F)) :=
  match tab with
  | .visual click =>
    match app.data.widgetReader with
    | some r =>
      let (w,entries) := app.timelineWidget.render fl lt r.events click
      ({ app with timelineWidget := w, data := { app.data with selectedEvent := w.selectedEvent } },
        some entries)
    | none => (app,none)
  | .events click =>
    match click with
    | some i =>
      if i < app.data.rows.getD 0 then
        let selected := Int32.ofNat i
        ({ app with
            timelineWidget := { app.timelineWidget with selectedEvent := selected }
            data := { app.data with selectedEvent := selected } },none)
      else (app,none)
    | none => (app,none)
  | .opTimings => (app,none)

/-- The views are drawn in this case. -/
def HasData (app : ImGuiApp) : Prop :=
  app.data.traceLoaded = true ∧ app.data.traceReader.isSome ∨ app.data.live.liveMode = true

instance (app : ImGuiApp) : Decidable app.HasData := inferInstanceAs (Decidable (_ ∨ _))

def renderViews (i : FrameInput) (app : ImGuiApp) :
    ImGuiApp × Option (List (TimelineEvent F)) × Inspected :=
  if app.HasData then
    let (app,timeline) :=
      match i.tab with
      | some tab => if app.showTimeline then app.renderTimelineView fl lt tab else (app,none)
      | none => (app,none)
    (app,timeline,if app.showTensorInspector && i.inspectorOpen then app.data.inspect else .none)
  else (app,none,.none)

def renderErrorPopup (ok : Bool) (app : ImGuiApp) : ImGuiApp :=
  if app.data.errorMessage ≠ [] ∧ ok = true then
    { app with data := { app.data with errorMessage := [] } }
  else app

/-- `render_frame`; none when a null pointer is used. -/
def renderFrame (i : FrameInput) (app : ImGuiApp) : Option (ImGuiApp × DrawnFrame F) :=
  match (app.updateLiveData i.poll).renderMainMenuBar i.menu with
  | none => none
  | some (app,status) =>
    let app := if app.showFileBrowser then app.renderFileBrowser i.browser else app
    let (app,timeline,inspected) := app.renderViews fl lt i
    some (app.renderErrorPopup i.ok,{ status, timeline, inspected })

end Views

/-- What `main` does before the first frame. -/
inductive StartMode
  | live (traceFile : Bytes) (env : Option Bytes)
  | trace (traceFile : Bytes) (access : FileAccess)
  | empty

def startIn : StartMode → ImGuiApp
  | .live traceFile env => { start with data := AppData.start.enableLiveMode traceFile env }
  | .trace traceFile access =>
    { start with data := (AppData.start.loadTraceFile traceFile access).1 }
  | .empty => start

end ImGuiApp

/-- The main loop, while the window is open. -/
def appSystem [StdSort] {F : Type} (fl : FloatArith F) (lt : F → F → Bool) :
    Transition.System ImGuiApp FrameInput where
  init app := ∃ mode, app = .startIn mode
  may app _ := app.windowShouldClose = false
  act i app := (app.renderFrame fl lt i).map Prod.fst

instance [StdSort] {F : Type} (fl : FloatArith F) (lt : F → F → Bool) (app : ImGuiApp) (i : FrameInput) :
    Decidable ((appSystem fl lt).may app i) :=
  inferInstanceAs (Decidable (_ = false))

end GgmlViz
