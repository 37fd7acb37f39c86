import Mathlib.Data.List.Basic

/-! # HTTP responses

How a client reads a response: byte by byte into the lines of the head, and after the empty
line into the body, which lasts as long as the connection.
-/
namespace Http

/-- The status line, and the header fields with their values. -/
structure Head where
  status : List UInt8
  fields : List (List UInt8 × List UInt8)
  deriving DecidableEq

/-- A line ends with a carriage return and a line feed. -/
def crlf : List UInt8 := [13,10]

def fieldLine (f : List UInt8 × List UInt8) : List UInt8 := f.1 ++ [58,32] ++ f.2

namespace Head

def lines (h : Head) : List (List UInt8) := h.status :: h.fields.map fieldLine

def render (h : Head) : List UInt8 := h.lines.flatMap (· ++ crlf) ++ crlf

/-- What stands between the first two blanks of the status line. -/
def statusCode (h : Head) : List UInt8 :=
  ((h.status.dropWhile (· ≠ 32)).drop 1).takeWhile (· ≠ 32)

/-- Letters of either case name the same field. -/
def lower (b : UInt8) : UInt8 := if 65 ≤ b ∧ b ≤ 90 then b + 32 else b

def value (name : List UInt8) (h : Head) : Option (List UInt8) :=
  (h.fields.find? (fun f => f.1.map lower = name.map lower)).map Prod.snd

end Head

/-- The name and the value of a line, without the blanks after the colon. -/
def parseField (line : List UInt8) : Option (List UInt8 × List UInt8) :=
  match line.dropWhile (· ≠ 58) with
  | [] => none
  | _ :: value => some (line.takeWhile (· ≠ 58),value.dropWhile (· = 32))

/-- Lines without a colon are ignored. -/
def parseHead : List (List UInt8) → Option Head
  | [] => none
  | status :: fields => some { status, fields := fields.filterMap parseField }

/-- What a client has read. -/
structure Reader where
  lines : List (List UInt8)
  /-- The line so far. -/
  line : List UInt8
  /-- What follows the head, when it has ended. -/
  body : Option (List UInt8)
  deriving DecidableEq

namespace Reader

def start : Reader where
  lines := []
  line := []
  body := none

/-- The line without the carriage return before its line feed. -/
def chomp (line : List UInt8) : List UInt8 :=
  if line.getLast? = some 13 then line.dropLast else line

def step (r : Reader) (b : UInt8) : Reader :=
  match r.body with
  | some body => { r with body := some (body ++ [b]) }
  | none =>
    if b = 10 then
      if chomp r.line = [] then { r with line := [], body := some [] }
      else { r with lines := r.lines ++ [chomp r.line], line := [] }
    else { r with line := r.line ++ [b] }

def run (bs : List UInt8) (r : Reader) : Reader := bs.foldl step r

/-- The head and what there is of the body. -/
def response (r : Reader) : Option (Head × List UInt8) := do
  let head ← parseHead r.lines
  let body ← r.body
  pure (head,body)

end Reader

section Runs

theorem run_append (s t : List UInt8) (r : Reader) : r.run (s ++ t) = (r.run s).run t :=
  List.foldl_append

/-- The body is what comes after the head, and the head stays. -/
theorem run_body {r : Reader} {body : List UInt8} (h : r.body = some body) (s : List UInt8) :
    r.run s = { r with body := some (body ++ s) } := by
  induction s generalizing r body with
  | nil =>
    rw [List.append_nil,← h]
    rfl
  | cons b s ih =>
    have hstep : r.step b = { r with body := some (body ++ [b]) } := by
      rw [Reader.step,h]
    have hrest : r.run (b :: s) = (r.step b).run s := rfl
    rw [hrest,hstep,ih rfl,List.append_assoc]
    rfl

/-- Bytes that do not end a line extend it. -/
theorem run_line {s : List UInt8} (hs : 10 ∉ s) {r : Reader} (h : r.body = none) :
    r.run s = { r with line := r.line ++ s } := by
  induction s generalizing r with
  | nil => simp [Reader.run]
  | cons b s ih =>
    have hb : b ≠ 10 := fun hb => hs (hb ▸ List.mem_cons_self)
    have hstep : r.step b = { r with line := r.line ++ [b] } := by
      rw [Reader.step,h]
      exact if_neg hb
    have hs' : 10 ∉ s := fun hmem => hs (List.mem_cons_of_mem b hmem)
    have hrest := ih hs' (r := { r with line := r.line ++ [b] }) h
    have hrun : r.run (b :: s) = (r.step b).run s := rfl
    rw [hrun,hstep,hrest,List.append_assoc]
    rfl

theorem chomp_concat (line : List UInt8) : Reader.chomp (line ++ [13]) = line := by
  rw [Reader.chomp,List.getLast?_concat,if_pos rfl,List.dropLast_concat]

/-- The end of a line that is not empty, and of an empty one. -/
theorem run_crlf {r : Reader} (h : r.body = none) : r.run crlf =
    if r.line = [] then { r with line := [], body := some [] }
    else { r with lines := r.lines ++ [r.line], line := [] } := by
  have hcr : r.step 13 = { r with line := r.line ++ [13] } := by
    rw [Reader.step,h]
    rfl
  have hrun : r.run crlf = (r.step 13).step 10 := rfl
  rw [hrun,hcr,Reader.step]
  simp only [h,if_true,chomp_concat]

/-- Lines of a head as they are to be: not empty, and without a line feed. -/
def LinesFit (lines : List (List UInt8)) : Prop := ∀ l ∈ lines, l ≠ [] ∧ 10 ∉ l

instance (lines : List (List UInt8)) : Decidable (LinesFit lines) :=
  inferInstanceAs (Decidable (∀ l ∈ lines, l ≠ [] ∧ 10 ∉ l))

theorem run_lines {lines : List (List UInt8)} (hfit : LinesFit lines) {r : Reader}
    (hline : r.line = []) (hbody : r.body = none) :
    r.run (lines.flatMap (· ++ crlf)) = { r with lines := r.lines ++ lines } := by
  induction lines generalizing r with
  | nil => simp [Reader.run]
  | cons l lines ih =>
    obtain ⟨⟨hne,hfeed⟩,hrest⟩ := List.forall_mem_cons.mp hfit
    have hread : r.run l = { r with line := l } := by
      rw [run_line hfeed hbody,hline,List.nil_append]
    have hend : (r.run l).run crlf = { r with lines := r.lines ++ [l] } := by
      rw [hread,run_crlf (r := { r with line := l }) hbody,if_neg hne,← hline]
    have hmore := ih hrest (r := { r with lines := r.lines ++ [l] }) hline hbody
    rw [List.flatMap_cons,run_append,run_append,hend,hmore,List.append_assoc]
    rfl

/-- After the head, everything is the body. -/
theorem run_render {h : Head} (hfit : LinesFit h.lines) (body : List UInt8) :
    Reader.start.run (h.render ++ body) = { lines := h.lines, line := [], body := some body } := by
  have hlines : Reader.start.run (h.lines.flatMap (· ++ crlf)) =
      { Reader.start with lines := h.lines } := run_lines hfit rfl rfl
  have hempty : (Reader.run crlf { Reader.start with lines := h.lines }) =
      { lines := h.lines, line := [], body := some [] } := by
    rw [run_crlf rfl]
    rfl
  rw [Head.render,run_append,run_append,hlines,hempty,run_body rfl]
  rfl

/-- A part of a response is still in its head, or shows the same head and a part of the body. -/
theorem run_part {h : Head} (hfit : LinesFit h.lines) {arrived body : List UInt8}
    (hpart : arrived <+: h.render ++ body) : (Reader.start.run arrived).body = none ∨
      ∃ shown, shown <+: body ∧
        Reader.start.run arrived = { lines := h.lines, line := [], body := some shown } := by
  obtain ⟨rest,hrest⟩ := hpart
  have hwhole := run_render hfit body
  rw [← hrest,run_append] at hwhole
  generalize Reader.start.run arrived = r at hwhole ⊢
  obtain ⟨lines,line,shown⟩ := r
  cases shown with
  | none => exact .inl rfl
  | some shown =>
    rw [run_body rfl] at hwhole
    obtain ⟨rfl,rfl,hbody⟩ := Reader.mk.inj hwhole
    exact .inr ⟨shown,⟨rest,Option.some.inj hbody⟩,rfl⟩

end Runs

section Fields

theorem takeWhile_colon {name : List UInt8} (hname : 58 ∉ name) (value : List UInt8) :
    (name ++ 58 :: value).takeWhile (· ≠ 58) = name ∧
      (name ++ 58 :: value).dropWhile (· ≠ 58) = 58 :: value := by
  have hall : ∀ b ∈ name, decide (b ≠ 58) = true :=
    fun b hb => decide_eq_true (fun heq => hname (heq ▸ hb))
  rw [List.takeWhile_append_of_pos hall,List.dropWhile_append_of_pos hall]
  simp

/-- A field as it is to be: its name ends at the colon, and its value does not begin with a
blank. -/
def FieldFits (f : List UInt8 × List UInt8) : Prop := 58 ∉ f.1 ∧ f.2.head? ≠ some 32

instance (f : List UInt8 × List UInt8) : Decidable (FieldFits f) :=
  inferInstanceAs (Decidable (58 ∉ f.1 ∧ f.2.head? ≠ some 32))

theorem parseField_fieldLine {f : List UInt8 × List UInt8} (h : FieldFits f) :
    parseField (fieldLine f) = some f := by
  obtain ⟨name,value⟩ := f
  obtain ⟨hname,hvalue⟩ := h
  have hblank : (32 :: value).dropWhile (· = 32) = value := by
    cases value with
    | nil => rfl
    | cons b value =>
      have hb : b ≠ 32 := fun heq => hvalue (heq ▸ rfl)
      simp [hb]
  obtain ⟨htake,hdrop⟩ := takeWhile_colon hname (32 :: value)
  have hline : fieldLine (name,value) = name ++ 58 :: 32 :: value := by simp [fieldLine]
  rw [parseField,hline,hdrop,htake]
  simp only [hblank]

theorem parseHead_lines {h : Head} (hfit : ∀ f ∈ h.fields, FieldFits f) :
    parseHead h.lines = some h := by
  have hfields : (h.fields.map fieldLine).filterMap parseField = h.fields := by
    rw [List.filterMap_map]
    calc h.fields.filterMap (parseField ∘ fieldLine) = h.fields.filterMap some :=
          List.filterMap_congr (fun f hf => parseField_fieldLine (hfit f hf))
      _ = h.fields := List.filterMap_some
  rw [Head.lines,parseHead,hfields]

end Fields

/-- A head that a client reads as it was meant. -/
structure Head.Fits (h : Head) : Prop where
  lines : LinesFit h.lines
  fields : ∀ f ∈ h.fields, FieldFits f

/-- A response is read back. -/
theorem response_render {h : Head} (hfit : h.Fits) (body : List UInt8) :
    (Reader.start.run (h.render ++ body)).response = some (h,body) := by
  rw [run_render hfit.lines,Reader.response,parseHead_lines hfit.fields]
  rfl

/-- Of a part of it, nothing is read back or a part of the body. -/
theorem response_part {h : Head} (hfit : h.Fits) {arrived body : List UInt8}
    (hpart : arrived <+: h.render ++ body) : (Reader.start.run arrived).response = none ∨
      ∃ shown, shown <+: body ∧ (Reader.start.run arrived).response = some (h,shown) := by
  rcases run_part hfit.lines hpart with hnone | ⟨shown,hshown,hrun⟩
  · left
    rw [Reader.response,hnone]
    cases parseHead (Reader.start.run arrived).lines <;> rfl
  · right
    refine ⟨shown,hshown,?_⟩
    rw [hrun,Reader.response,parseHead_lines hfit.fields]
    rfl

end Http
