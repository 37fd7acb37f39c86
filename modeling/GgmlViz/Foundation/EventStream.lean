import Mathlib.Data.List.Basic

/-! # Server-sent events

How a client reads an event stream: byte by byte into lines, line by line into fields, and
a message at each empty line that follows some data.
-/
namespace EventStream

structure Message where
  event : List UInt8
  data : List UInt8
  lastEventId : List UInt8
  deriving DecidableEq

/-- What a client remembers between two bytes. -/
structure Reader where
  /-- The line so far. -/
  line : List UInt8
  /-- The last byte was a carriage return, and a line feed would belong to it. -/
  cr : Bool
  data : List UInt8
  event : List UInt8
  lastEventId : List UInt8
  deriving DecidableEq

/-- Between two messages. -/
def Reader.fresh (lastEventId : List UInt8) : Reader where
  line := []
  cr := false
  data := []
  event := []
  lastEventId := lastEventId

/-- The name and the value of a line, without the blank after the colon. -/
def field (line : List UInt8) : List UInt8 × List UInt8 :=
  match line.dropWhile (· ≠ 58) with
  | [] => (line,[])
  | _ :: 32 :: value => (line.takeWhile (· ≠ 58),value)
  | _ :: value => (line.takeWhile (· ≠ 58),value)

/-- `data` -/
def dataName : List UInt8 := [100,97,116,97]

/-- `event` -/
def eventName : List UInt8 := [101,118,101,110,116]

/-- `id` -/
def idName : List UInt8 := [105,100]

/-- `message`, the type of a message that names none. -/
def defaultEvent : List UInt8 := [109,101,115,115,97,103,101]

namespace Reader

/-- Other fields do not change a message. -/
def setField (name value : List UInt8) (r : Reader) : Reader :=
  if name = eventName then { r with event := value }
  else if name = dataName then { r with data := r.data ++ value ++ [10] }
  else if name = idName then
    if 0 ∈ value then r else { r with lastEventId := value }
  else r

def dispatch (r : Reader) : Reader × List Message :=
  ({ r with data := [], event := [] },
    if r.data = [] then []
    else [{ event := if r.event = [] then defaultEvent else r.event, data := r.data.dropLast,
            lastEventId := r.lastEventId }])

def endLine (cr : Bool) (r : Reader) : Reader × List Message :=
  let next := { r with line := [], cr := cr }
  if r.line = [] then next.dispatch
  else (next.setField (field r.line).1 (field r.line).2,[])

def step (b : UInt8) (r : Reader) : Reader × List Message :=
  if b = 10 then
    if r.cr then ({ r with cr := false },[]) else r.endLine false
  else if b = 13 then r.endLine true
  else ({ r with line := r.line ++ [b], cr := false },[])

def run : List UInt8 → Reader → Reader × List Message
  | [], r => (r,[])
  | b :: bs, r =>
    let (next,ms) := r.step b
    let (last,more) := next.run bs
    (last,ms ++ more)

end Reader

/-- A line of data and an empty line. -/
def dataMessage (text : List UInt8) : List UInt8 := dataName ++ [58,32] ++ text ++ [10,10]

section Runs

theorem run_append (s t : List UInt8) (r : Reader) : r.run (s ++ t) =
    (((r.run s).1.run t).1,(r.run s).2 ++ ((r.run s).1.run t).2) := by
  induction s generalizing r with
  | nil => rfl
  | cons b s ih =>
    simp only [List.cons_append,Reader.run,ih,List.append_assoc]

def NoBreak (s : List UInt8) : Prop := ∀ b ∈ s, b ≠ 10 ∧ b ≠ 13

/-- Bytes that do not end a line extend it. -/
theorem run_noBreak {s : List UInt8} (h : NoBreak s) {r : Reader} (hcr : r.cr = false) :
    r.run s = ({ r with line := r.line ++ s },[]) := by
  induction s generalizing r with
  | nil => simp [Reader.run]
  | cons b s ih =>
    obtain ⟨⟨hlf,hret⟩,hs⟩ := List.forall_mem_cons.mp h
    have hstep : r.step b = ({ r with line := r.line ++ [b] },[]) := by
      rw [Reader.step,if_neg hlf,if_neg hret,hcr]
    have hrest := ih hs (r := { r with line := r.line ++ [b] }) hcr
    rw [Reader.run,hstep]
    simp only [hrest,List.append_assoc,List.singleton_append,List.append_nil]

theorem field_data (text : List UInt8) : field (dataName ++ [58,32] ++ text) = (dataName,text) := rfl

theorem noBreak_dataName : NoBreak (dataName ++ [58,32]) := by
  have hall : (dataName ++ [58,32]).all (fun b => decide (b ≠ 10 ∧ b ≠ 13)) = true := by decide
  intro b hb
  exact of_decide_eq_true (List.all_eq_true.mp hall b hb)

theorem run_dataName (id : List UInt8) : (Reader.fresh id).run (dataName ++ [58,32]) =
    ({ Reader.fresh id with line := dataName ++ [58,32] },[]) :=
  run_noBreak noBreak_dataName rfl

/-- A text in one line arrives as one message, and the client is where it was. -/
theorem run_dataMessage {text : List UInt8} (h : NoBreak text) (id : List UInt8) :
    (Reader.fresh id).run (dataMessage text) =
      (Reader.fresh id,[{ event := defaultEvent, data := text, lastEventId := id }]) := by
  have hline : NoBreak (dataName ++ [58,32] ++ text) := by
    intro b hb
    rcases List.mem_append.mp hb with hb | hb
    · exact noBreak_dataName b hb
    · exact h b hb
  rw [dataMessage,run_append,run_noBreak hline rfl]
  simp only [Reader.fresh,List.nil_append,Reader.run,Reader.step,Reader.endLine,if_true,
    Bool.false_eq_true,if_false,field_data]
  simp [Reader.setField,Reader.dispatch,dataName,eventName]

end Runs

section Lengths

/-- What a line can add to the data. -/
def worth (line : List UInt8) : ℕ :=
  if dataName ++ [58,32] <+: line then line.length - 6 else line.length

/-- What the client holds. -/
def Reader.weight (r : Reader) : ℕ := r.data.length + worth r.line

theorem worth_concat_le (line : List UInt8) (b : UInt8) : worth (line ++ [b]) ≤ worth line + 1 := by
  by_cases hline : dataName ++ [58,32] <+: line
  · rw [worth,worth,if_pos (hline.trans (List.prefix_append line [b])),if_pos hline,
      List.length_append,List.length_singleton]
    omega
  · rw [worth,worth,if_neg hline,List.length_append,List.length_singleton]
    split <;> omega

theorem length_value_le (line : List UInt8) : (field line).2.length ≤ worth line := by
  unfold worth
  split
  · next hline =>
    obtain ⟨text,rfl⟩ := hline
    rw [field_data]
    simp [dataName]
  · have hdrop : (line.dropWhile (· ≠ 58)).length ≤ line.length :=
      (List.dropWhile_suffix _).length_le
    unfold field
    split <;> simp_all <;> omega

theorem weight_setField (name value : List UInt8) (r : Reader) :
    (r.setField name value).weight ≤ r.weight + (value.length + 1) := by
  unfold Reader.setField
  split
  · exact Nat.le_add_right r.weight _
  · split
    · simp only [Reader.weight,List.length_append,List.length_singleton]
      omega
    · split
      · split <;> exact Nat.le_add_right r.weight _
      · exact Nat.le_add_right r.weight _

theorem length_dispatch {r : Reader} {m : Message} (hm : m ∈ r.dispatch.2) :
    m.data.length + 1 = r.data.length := by
  unfold Reader.dispatch at hm
  by_cases hdata : r.data = []
  · rw [if_pos hdata] at hm
    exact absurd hm List.not_mem_nil
  · rw [if_neg hdata,List.mem_singleton] at hm
    rw [hm,List.length_dropLast]
    exact Nat.sub_add_cancel (List.length_pos_iff.mpr hdata)

theorem weight_endLine (cr : Bool) (r : Reader) : (r.endLine cr).1.weight ≤ r.weight + 1 ∧
    ∀ m ∈ (r.endLine cr).2, m.data.length + 2 ≤ r.weight + 1 := by
  let next : Reader := { r with line := [], cr := cr }
  have hnext : next.weight = r.data.length := rfl
  by_cases hline : r.line = []
  · have hend : r.endLine cr = next.dispatch := if_pos hline
    rw [hend]
    refine ⟨Nat.zero_le _,?_⟩
    intro m hm
    have hlen : m.data.length + 1 = r.data.length := length_dispatch hm
    rw [Reader.weight]
    omega
  · have hend : r.endLine cr = (next.setField (field r.line).1 (field r.line).2,[]) := if_neg hline
    rw [hend]
    refine ⟨?_,fun m hm => absurd hm List.not_mem_nil⟩
    have hvalue := length_value_le r.line
    have hset := weight_setField (field r.line).1 (field r.line).2 next
    have hweight : r.weight = r.data.length + worth r.line := rfl
    dsimp only
    omega

/-- A byte adds at most one to what the client holds, and a message carries less than that. -/
theorem weight_step (b : UInt8) (r : Reader) : (r.step b).1.weight ≤ r.weight + 1 ∧
    ∀ m ∈ (r.step b).2, m.data.length + 2 ≤ r.weight + 1 := by
  have hnone : ∀ m ∈ ([] : List Message), m.data.length + 2 ≤ r.weight + 1 :=
    fun m hm => absurd hm List.not_mem_nil
  unfold Reader.step
  split
  · split
    · exact ⟨Nat.le_add_right r.weight 1,hnone⟩
    · exact weight_endLine false r
  · split
    · exact weight_endLine true r
    · refine ⟨?_,hnone⟩
      have hworth := worth_concat_le r.line b
      simp only [Reader.weight]
      omega

theorem length_run_le (s : List UInt8) (r : Reader) :
    ∀ m ∈ (r.run s).2, m.data.length + 2 ≤ r.weight + s.length := by
  induction s generalizing r with
  | nil => exact fun m hm => absurd hm List.not_mem_nil
  | cons b s ih =>
    obtain ⟨hweight,hstep⟩ := weight_step b r
    intro m hm
    rw [List.length_cons]
    rcases List.mem_append.mp hm with hm | hm
    · have hlen := hstep m hm
      omega
    · have hlen := ih (r.step b).1 m hm
      omega

/-- No message that a client makes of a data line is longer than the text in it. -/
theorem length_data_le (text id : List UInt8) :
    ∀ m ∈ ((Reader.fresh id).run (dataMessage text)).2, m.data.length ≤ text.length := by
  intro m hm
  rw [dataMessage,List.append_assoc,run_append,run_dataName] at hm
  have hlen := length_run_le (text ++ [10,10]) _ m hm
  have hweight : Reader.weight { Reader.fresh id with line := dataName ++ [58,32] } = 0 := rfl
  rw [hweight,List.length_append,Nat.zero_add] at hlen
  exact Nat.le_of_add_le_add_right hlen

end Lengths
end EventStream
