import Mathlib.Data.List.Basic

/-! # Command lines

`getopt_long` as it is documented: long options may be abbreviated, short ones may stand in one
word, an argument is attached or in the next word, and words that are no options may stand
between the options. A grammar says which lines are read without a complaint.
-/
namespace Getopt

abbrev Word := List UInt8

/-- `struct option`, where `flag` is null. -/
structure LongOption (V : Type*) where
  name : Word
  hasArg : Bool
  val : V
  deriving DecidableEq

structure Spec (V : Type*) where
  /-- The option string: which letters are options, and whether they take an argument. -/
  short : UInt8 → Option (Bool × V)
  long : List (LongOption V)

/-- An option with its argument, or the `'?'` of a complaint. -/
inductive Item (V : Type*)
  | opt (val : V) (arg : Option Word)
  | unknown
  deriving DecidableEq

/-- The parts before and behind the first equals sign. -/
def splitEq : Word → Word × Option Word
  | [] => ([],none)
  | b :: bs => if b = 61 then ([],some bs) else (b :: (splitEq bs).1,(splitEq bs).2)

def joinEq (name : Word) : Option Word → Word
  | none => name
  | some arg => name ++ 61 :: arg

theorem splitEq_joinEq {name : Word} (h : 61 ∉ name) (attached : Option Word) :
    splitEq (joinEq name attached) = (name,attached) := by
  induction name with
  | nil => cases attached <;> rfl
  | cons b bs ih =>
    obtain ⟨hb,hbs⟩ := not_or.mp (List.mem_cons.not.mp h)
    have hcons : joinEq (b :: bs) attached = b :: joinEq bs attached := by
      cases attached <;> rfl
    rw [hcons,splitEq,if_neg (Ne.symm hb),ih hbs]

theorem joinEq_splitEq (text : Word) :
    joinEq (splitEq text).1 (splitEq text).2 = text ∧ 61 ∉ (splitEq text).1 := by
  induction text with
  | nil => simp [splitEq,joinEq]
  | cons b bs ih =>
    rw [splitEq]
    split
    · next hb => simp [joinEq,hb]
    · next hb =>
      refine ⟨?_,by simpa using ⟨Ne.symm hb,ih.2⟩⟩
      cases hattached : (splitEq bs).2 <;> simpa [joinEq,hattached] using ih.1

variable {V : Type*} [DecidableEq V]

namespace Spec
variable (spec : Spec V)

/-- A name in full, or the beginning of names that all mean the same. -/
def findLong (name : Word) : Option (LongOption V) :=
  match spec.long.find? (fun o => o.name = name) with
  | some o => some o
  | none =>
    match spec.long.filter (fun o => name.isPrefixOf o.name) with
    | [] => none
    | o :: others =>
      if others.all (fun p => p.hasArg = o.hasArg ∧ p.val = o.val) then some o else none

/-- A long option without its dashes, and the option that waits for its argument. -/
def longOption (text : Word) : List (Item V) × Option V :=
  match spec.findLong (splitEq text).1, (splitEq text).2 with
  | none, _ => ([.unknown],none)
  | some o, none => if o.hasArg then ([],some o.val) else ([.opt o.val none],none)
  | some o, some arg => if o.hasArg then ([.opt o.val (some arg)],none) else ([.unknown],none)

/-- The letters of a word that begins with one dash. -/
def shortOptions : Word → List (Item V) × Option V
  | [] => ([],none)
  | c :: cs =>
    match spec.short c with
    | none => (.unknown :: (shortOptions cs).1,(shortOptions cs).2)
    | some (false,v) => (.opt v none :: (shortOptions cs).1,(shortOptions cs).2)
    | some (true,v) => if cs = [] then ([],some v) else ([.opt v (some cs)],none)

/-- What a word means, unless it is no option. -/
def word : Word → Option (List (Item V) × Option V)
  | 45 :: 45 :: text => some (spec.longOption text)
  | 45 :: c :: cs => some (spec.shortOptions (c :: cs))
  | _ => none

/-- The calls of `getopt_long` until it returns -1, and the words that are left. An option
may wait for the next word; with `POSIXLY_CORRECT` the first other word ends the options. -/
def scan (posixlyCorrect : Bool) : Option V → List Word → List (Item V) × List Word
  | none, [] => ([],[])
  | some _, [] => ([.unknown],[])
  | some v, arg :: ws =>
    let r := scan posixlyCorrect none ws
    (.opt v (some arg) :: r.1,r.2)
  | none, w :: ws =>
    if w = [45,45] then ([],ws)
    else
      match spec.word w with
      | none =>
        if posixlyCorrect then ([],w :: ws)
        else
          let r := scan posixlyCorrect none ws
          (r.1,w :: r.2)
      | some (items,waiting) =>
        let r := scan posixlyCorrect waiting ws
        (items ++ r.1,r.2)

end Spec

/-- An option as it was read. -/
def item (o : V × Option Word) : Item V := .opt o.1 o.2

/-- The word is no option: it has no dash in front, or is a dash. -/
def IsOperand (w : Word) : Prop := w.head? ≠ some 45 ∨ w = [45]

section Grammar
variable (spec : Spec V)

/-- Letters of which the last may take what follows as its argument, or wait for it. -/
inductive Letters : Word → List (V × Option Word) → Option V → Prop
  | done : Letters [] [] none
  | flag {c : UInt8} {v : V} {cs : Word} {os : List (V × Option Word)} {waiting : Option V}
    (hshort : spec.short c = some (false,v)) (rest : Letters cs os waiting) :
    Letters (c :: cs) ((v,none) :: os) waiting
  | attached {c : UInt8} {v : V} {arg : Word} (hshort : spec.short c = some (true,v))
    (harg : arg ≠ []) : Letters (c :: arg) [(v,some arg)] none
  | waiting {c : UInt8} {v : V} (hshort : spec.short c = some (true,v)) : Letters [c] [] (some v)

/-- A word that spells options. -/
inductive Spelled : Word → List (V × Option Word) → Option V → Prop
  | long {name : Word} {o : LongOption V} (hname : name ≠ [] ∧ 61 ∉ name)
    (hfind : spec.findLong name = some o) (harg : o.hasArg = false) :
    Spelled (45 :: 45 :: name) [(o.val,none)] none
  | longWaiting {name : Word} {o : LongOption V} (hname : name ≠ [] ∧ 61 ∉ name)
    (hfind : spec.findLong name = some o) (harg : o.hasArg = true) :
    Spelled (45 :: 45 :: name) [] (some o.val)
  | longAttached {name arg : Word} {o : LongOption V} (hname : 61 ∉ name)
    (hfind : spec.findLong name = some o) (harg : o.hasArg = true) :
    Spelled (45 :: 45 :: (name ++ 61 :: arg)) [(o.val,some arg)] none
  | short {c : UInt8} {cs : Word} {os : List (V × Option Word)} {waiting : Option V}
    (hdash : c ≠ 45) (h : Letters spec (c :: cs) os waiting) : Spelled (45 :: c :: cs) os waiting

/-- A line without a complaint, with its options and its operands in order. -/
inductive Line (posixlyCorrect : Bool) :
    List Word → List (V × Option Word) → List Word → Prop
  | done : Line posixlyCorrect [] [] []
  | dashes (ws : List Word) : Line posixlyCorrect ([45,45] :: ws) [] ws
  | operand {w : Word} {ws ps : List Word} {os : List (V × Option Word)} (hw : IsOperand w)
    (hposix : posixlyCorrect = false) (rest : Line posixlyCorrect ws os ps) :
    Line posixlyCorrect (w :: ws) os (w :: ps)
  | stop {w : Word} (ws : List Word) (hw : IsOperand w) (hposix : posixlyCorrect = true) :
    Line posixlyCorrect (w :: ws) [] (w :: ws)
  | options {w : Word} {ws ps : List Word} {os os' : List (V × Option Word)}
    (hw : Spelled spec w os none) (rest : Line posixlyCorrect ws os' ps) :
    Line posixlyCorrect (w :: ws) (os ++ os') ps
  | waiting {w arg : Word} {ws ps : List Word} {os os' : List (V × Option Word)} {v : V}
    (hw : Spelled spec w os (some v)) (rest : Line posixlyCorrect ws os' ps) :
    Line posixlyCorrect (w :: arg :: ws) (os ++ (v,some arg) :: os') ps

end Grammar

section Words
variable {spec : Spec V} {w : Word} {os : List (V × Option Word)} {waiting : Option V}

omit [DecidableEq V] in
theorem eq_of_map_item (os : List (V × Option Word)) {os' : List (V × Option Word)}
    (h : os.map item = os'.map item) : os = os' := by
  refine List.map_injective_iff.mpr ?_ h
  rintro ⟨v,a⟩ ⟨v',a'⟩ hitem
  simpa [item] using hitem

omit [DecidableEq V] in
/-- A complaint does not come from an option. -/
theorem unknown_notMem (os : List (V × Option Word)) : Item.unknown ∉ os.map item := by
  simp [item]

theorem word_eq_none_iff : spec.word w = none ↔ IsOperand w := by
  match w with
  | [] => simp [Spec.word,IsOperand]
  | [c] => by_cases hc : c = 45 <;> simp [Spec.word,IsOperand,hc]
  | c :: d :: cs =>
    by_cases hc : c = 45
    · by_cases hd : d = 45 <;> simp [Spec.word,IsOperand,hc,hd]
    · simp [Spec.word,IsOperand,hc]

omit [DecidableEq V] in
theorem letters_iff (cs : Word) : Letters spec cs os waiting ↔
    spec.shortOptions cs = (os.map item,waiting) := by
  constructor
  · intro h
    induction h with
    | done => rfl
    | flag hshort _ ih => simp [Spec.shortOptions,hshort,ih,item]
    | attached hshort harg => simp [Spec.shortOptions,hshort,harg,item]
    | waiting hshort => simp [Spec.shortOptions,hshort]
  · intro h
    induction cs generalizing os with
    | nil =>
      obtain ⟨hos,rfl⟩ := Prod.mk.inj h
      rw [← eq_of_map_item [] hos]
      exact .done
    | cons c cs ih =>
      rw [Spec.shortOptions] at h
      split at h
      · next hshort =>
        have hmem : Item.unknown ∈ os.map item := by
          rw [← (Prod.mk.inj h).1]
          exact List.mem_cons_self
        exact absurd hmem (unknown_notMem os)
      · next v hshort =>
        obtain ⟨hos,hwaiting⟩ := Prod.mk.inj h
        cases os with
        | nil => cases hos
        | cons o os =>
          obtain ⟨hfirst,hrest⟩ := List.cons.inj hos
          obtain ⟨rfl,rfl⟩ : o = (v,none) := by
            obtain ⟨v',a⟩ := o
            simpa [item,eq_comm] using hfirst
          exact .flag hshort (ih (Prod.ext hrest hwaiting))
      · next v hshort =>
        split at h
        · next hcs =>
          subst hcs
          obtain ⟨hos,rfl⟩ := Prod.mk.inj h
          rw [← eq_of_map_item [] hos]
          exact .waiting hshort
        · next hcs =>
          obtain ⟨hos,rfl⟩ := Prod.mk.inj h
          rw [← eq_of_map_item [(v,some cs)] hos]
          exact .attached hshort hcs

/-- Long options without a complaint. -/
theorem spelled_long_iff {text : Word} : Spelled spec (45 :: 45 :: text) os waiting ↔
    text ≠ [] ∧ spec.longOption text = (os.map item,waiting) := by
  constructor
  · intro h
    generalize hw : (45 : UInt8) :: 45 :: text = w at h
    cases h with
    | long hname hfind harg =>
      cases hw
      have hsplit : splitEq text = (text,none) := splitEq_joinEq hname.2 none
      simp [hname.1,Spec.longOption,hsplit,hfind,harg,item]
    | longWaiting hname hfind harg =>
      cases hw
      have hsplit : splitEq text = (text,none) := splitEq_joinEq hname.2 none
      simp [hname.1,Spec.longOption,hsplit,hfind,harg]
    | @longAttached name arg o hname hfind harg =>
      cases hw
      have hsplit : splitEq (name ++ 61 :: arg) = (name,some arg) := splitEq_joinEq hname (some arg)
      simp [Spec.longOption,hsplit,hfind,harg,item]
    | short hdash h =>
      cases hw
      exact absurd rfl hdash
  · rintro ⟨hne,h⟩
    obtain ⟨hjoin,hname⟩ := joinEq_splitEq text
    rw [Spec.longOption] at h
    generalize (splitEq text).1 = name at hjoin hname h
    generalize (splitEq text).2 = attached at hjoin h
    subst hjoin
    cases hfind : spec.findLong name with
    | none =>
      simp only [hfind,Prod.mk.injEq] at h
      exact absurd (h.1 ▸ List.mem_cons_self) (unknown_notMem os)
    | some o =>
      cases attached with
      | none =>
        simp only [hfind] at h
        split at h
        · next harg =>
          obtain ⟨hos,rfl⟩ := Prod.mk.inj h
          rw [← eq_of_map_item [] hos]
          exact .longWaiting ⟨hne,hname⟩ hfind harg
        · next harg =>
          obtain ⟨hos,rfl⟩ := Prod.mk.inj h
          rw [← eq_of_map_item [(o.val,none)] hos]
          exact .long ⟨hne,hname⟩ hfind (by simpa using harg)
      | some arg =>
        simp only [hfind] at h
        split at h
        · next harg =>
          obtain ⟨hos,rfl⟩ := Prod.mk.inj h
          rw [← eq_of_map_item [(o.val,some arg)] hos]
          exact .longAttached hname hfind harg
        · exact absurd ((Prod.mk.inj h).1 ▸ List.mem_cons_self) (unknown_notMem os)

theorem spelled_short_iff {c : UInt8} {cs : Word} (hdash : c ≠ 45) :
    Spelled spec (45 :: c :: cs) os waiting ↔
      spec.shortOptions (c :: cs) = (os.map item,waiting) := by
  rw [← letters_iff]
  constructor
  · intro h
    cases h with
    | long _ _ _ => exact absurd rfl hdash
    | longWaiting _ _ _ => exact absurd rfl hdash
    | longAttached _ _ _ => exact absurd rfl hdash
    | short _ h => exact h
  · exact .short hdash

/-- Reading a word without a complaint. -/
theorem spelled_iff : Spelled spec w os waiting ↔
    w ≠ [45,45] ∧ spec.word w = some (os.map item,waiting) := by
  match w with
  | [] => exact iff_of_false nofun (by simp [Spec.word])
  | [c] =>
    refine iff_of_false (fun h => ?_) (by by_cases hc : c = 45 <;> simp [Spec.word,hc])
    cases h
  | c :: d :: cs =>
    by_cases hc : c = 45
    · subst hc
      by_cases hd : d = 45
      · subst hd
        rw [spelled_long_iff]
        simp [Spec.word]
      · rw [spelled_short_iff hd]
        simp [Spec.word,hd]
    · refine iff_of_false (fun h => ?_) (by simp [Spec.word,hc])
      cases h <;> exact hc rfl

end Words
theorem IsOperand.ne_dashes {w : Word} (h : IsOperand w) : w ≠ [45,45] := by
  rintro rfl
  simp [IsOperand] at h

section Lines
variable {spec : Spec V} {posixlyCorrect : Bool} {os : List (V × Option Word)} {ps : List Word}

omit [DecidableEq V] in
/-- A split of what was read follows a split of the options. -/
theorem exists_of_append_eq (items : List (Item V)) {rest : List (Item V)}
    (h : items ++ rest = os.map item) :
    ∃ os₁ os₂, os = os₁ ++ os₂ ∧ items = os₁.map item ∧ rest = os₂.map item := by
  obtain ⟨os₁,os₂,hos,h₁,h₂⟩ := List.map_eq_append_iff.mp h.symm
  exact ⟨os₁,os₂,hos,h₁.symm,h₂.symm⟩

theorem Line.scan {ws : List Word} (h : Line spec posixlyCorrect ws os ps) :
    spec.scan posixlyCorrect none ws = (os.map item,ps) := by
  induction h with
  | done => rfl
  | dashes ws => simp [Spec.scan]
  | operand hw hposix _ ih =>
    subst hposix
    simp [Spec.scan,hw.ne_dashes,word_eq_none_iff.mpr hw,ih]
  | stop ws hw hposix =>
    simp [Spec.scan,hw.ne_dashes,word_eq_none_iff.mpr hw,hposix]
  | options hw _ ih =>
    obtain ⟨hne,hword⟩ := spelled_iff.mp hw
    simp [Spec.scan,hne,hword,ih]
  | waiting hw _ ih =>
    obtain ⟨hne,hword⟩ := spelled_iff.mp hw
    simp [Spec.scan,hne,hword,ih,item]

/-- A line, behind an option that may wait for the first word of it. -/
def Continues (spec : Spec V) (posixlyCorrect : Bool) (ws : List Word)
    (os : List (V × Option Word)) (ps : List Word) : Option V → Prop
  | none => Line spec posixlyCorrect ws os ps
  | some v => ∃ arg ws' os', ws = arg :: ws' ∧ os = (v,some arg) :: os' ∧
      Line spec posixlyCorrect ws' os' ps

/-- What is read without a complaint is a line of the grammar. -/
theorem line_of_scan {ws : List Word} (pending : Option V)
    (h : spec.scan posixlyCorrect pending ws = (os.map item,ps)) :
    Continues spec posixlyCorrect ws os ps pending := by
  induction ws generalizing pending os ps with
  | nil =>
    cases pending with
    | none =>
      obtain ⟨hos,rfl⟩ := Prod.mk.inj h
      rw [← eq_of_map_item [] hos]
      exact .done
    | some v => exact absurd ((Prod.mk.inj h).1 ▸ List.mem_cons_self) (unknown_notMem os)
  | cons w ws ih =>
    cases pending with
    | some v =>
      obtain ⟨hos,hps⟩ := Prod.mk.inj h
      obtain ⟨os₁,os₂,rfl,h₁,h₂⟩ := exists_of_append_eq [.opt v (some w)] hos
      rw [← eq_of_map_item [(v,some w)] h₁]
      exact ⟨w,ws,os₂,rfl,rfl,ih none (Prod.ext h₂ hps)⟩
    | none =>
      rw [Spec.scan] at h
      split at h
      · next hw =>
        obtain ⟨hos,rfl⟩ := Prod.mk.inj h
        rw [hw,← eq_of_map_item [] hos]
        exact .dashes ws
      · next hne =>
        split at h
        · next hword =>
          have hoperand := word_eq_none_iff.mp hword
          split at h
          · next hposix =>
            obtain ⟨hos,rfl⟩ := Prod.mk.inj h
            rw [← eq_of_map_item [] hos]
            exact .stop ws hoperand hposix
          · next hposix =>
            obtain ⟨hos,rfl⟩ := Prod.mk.inj h
            exact .operand hoperand (by simpa using hposix) (ih none (Prod.ext hos rfl))
        · next items waiting hword =>
          obtain ⟨hos,hps⟩ := Prod.mk.inj h
          obtain ⟨os₁,os₂,rfl,rfl,h₂⟩ := exists_of_append_eq items hos
          have hspelled := spelled_iff.mpr ⟨hne,hword⟩
          have hrest := ih waiting (Prod.ext h₂ hps)
          cases waiting with
          | none => exact .options hspelled hrest
          | some v =>
            obtain ⟨arg,ws',os',rfl,rfl,hline⟩ := hrest
            exact .waiting hspelled hline

/-- Exactly the lines of the grammar are read without a complaint, as the grammar says. -/
theorem scan_iff {ws : List Word} : spec.scan posixlyCorrect none ws = (os.map item,ps) ↔
    Line spec posixlyCorrect ws os ps :=
  ⟨line_of_scan none,Line.scan⟩

end Lines
end Getopt
