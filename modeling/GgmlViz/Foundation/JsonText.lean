import Mathlib.Data.Nat.Digits.Lemmas
import Mathlib.Data.List.Basic

/-! # JSON texts

The grammar of JSON as a relation between the bytes of a text and the value that it denotes.
A text is never shorter than the value written without blanks, escapes and exponents, and a
text that is not longer is that one.
-/
namespace JsonText

/-- The number `mantissa * 10 ^ exponent`. -/
structure Decimal where
  mantissa : ℤ
  exponent : ℤ
  deriving DecidableEq

inductive Value
  | null
  | bool (b : Bool)
  | number (d : Decimal)
  | string (s : List UInt8)
  | array (xs : List Value)
  | object (members : List (List UInt8 × Value))

section Strings

/-- A character that stands for itself in a string. -/
def PlainChar (c : Char) : Prop := 32 ≤ c.toNat ∧ c ≠ '"' ∧ c ≠ '\\'

instance (c : Char) : Decidable (PlainChar c) := inferInstanceAs (Decidable (_ ∧ _))

/-- UTF-8 in which every character stands for itself. -/
def PlainText (s : List UInt8) : Prop :=
  ∃ cs : List Char, (∀ c ∈ cs, PlainChar c) ∧ s = cs.flatMap String.utf8EncodeChar

/-- What a letter after a backslash stands for. -/
def escaped : UInt8 → Option UInt8
  | 34 => some 34
  | 92 => some 92
  | 47 => some 47
  | 98 => some 8
  | 102 => some 12
  | 110 => some 10
  | 114 => some 13
  | 116 => some 9
  | _ => none

def hexDigit (b : UInt8) : Option ℕ :=
  if 48 ≤ b ∧ b ≤ 57 then some (b.toNat - 48)
  else if 65 ≤ b ∧ b ≤ 70 then some (b.toNat - 55)
  else if 97 ≤ b ∧ b ≤ 102 then some (b.toNat - 87)
  else none

/-- Four hexadecimal digits, as a UTF-16 code unit. -/
def CodeUnit (hs : List UInt8) (n : ℕ) : Prop :=
  hs.length = 4 ∧ (hs.mapM hexDigit).map (fun ds => Nat.ofDigits 16 ds.reverse) = some n

/-- What stands between the quotes of a string. -/
inductive Body : List UInt8 → List UInt8 → Prop
  | nil : Body [] []
  | char {c : Char} {raw s : List UInt8} : PlainChar c → Body raw s →
      Body (String.utf8EncodeChar c ++ raw) (String.utf8EncodeChar c ++ s)
  | escape {e b : UInt8} {raw s : List UInt8} : escaped e = some b → Body raw s →
      Body (92 :: e :: raw) (b :: s)
  | unit {hs raw s : List UInt8} {c : Char} : CodeUnit hs c.toNat → Body raw s →
      Body (92 :: 117 :: hs ++ raw) (String.utf8EncodeChar c ++ s)
  /-- A surrogate pair. -/
  | pair {hs ls raw s : List UInt8} {high low : ℕ} {c : Char} :
      CodeUnit hs (0xD800 + high) → CodeUnit ls (0xDC00 + low) → high < 0x400 → low < 0x400 →
      c.toNat = 0x10000 + 0x400 * high + low → Body raw s →
      Body (92 :: 117 :: hs ++ 92 :: 117 :: ls ++ raw) (String.utf8EncodeChar c ++ s)

def quoted (s : List UInt8) : List UInt8 := 34 :: s ++ [34]

inductive Quoted : List UInt8 → List UInt8 → Prop
  | mk {raw s : List UInt8} : Body raw s → Quoted (quoted raw) s

end Strings

section Numbers

def digitBytes (ds : List ℕ) : List UInt8 := ds.map (fun d => UInt8.ofNat (48 + d))

def Digits (ds : List ℕ) : Prop := ds ≠ [] ∧ ∀ d ∈ ds, d < 10

/-- The number that decimal digits spell, the first one counting most. -/
def digitsValue (ds : List ℕ) : ℕ := Nat.ofDigits 10 ds.reverse

inductive Fraction : List UInt8 → List ℕ → Prop
  | none : Fraction [] []
  | some {ds : List ℕ} : Digits ds → Fraction (46 :: digitBytes ds) ds

inductive Exponent : List UInt8 → ℤ → Prop
  | none : Exponent [] 0
  | unsigned {e : UInt8} {ds : List ℕ} : e = 101 ∨ e = 69 → Digits ds →
      Exponent (e :: digitBytes ds) (digitsValue ds)
  | plus {e : UInt8} {ds : List ℕ} : e = 101 ∨ e = 69 → Digits ds →
      Exponent (e :: 43 :: digitBytes ds) (digitsValue ds)
  | minus {e : UInt8} {ds : List ℕ} : e = 101 ∨ e = 69 → Digits ds →
      Exponent (e :: 45 :: digitBytes ds) (-digitsValue ds)

def minusSign (minus : Bool) : List UInt8 := if minus then [45] else []

def signed (minus : Bool) (n : ℕ) : ℤ := if minus then -n else n

inductive Number : List UInt8 → Decimal → Prop
  | mk {minus : Bool} {int fs : List ℕ} {f e : List UInt8} {x : ℤ} : Digits int →
      (int.head? = some 0 → int = [0]) → Fraction f fs → Exponent e x →
      Number (minusSign minus ++ digitBytes int ++ f ++ e)
        { mantissa := signed minus (digitsValue (int ++ fs)), exponent := x - fs.length }

end Numbers

def Blank (w : List UInt8) : Prop := ∀ b ∈ w, b = 32 ∨ b = 9 ∨ b = 10 ∨ b = 13

/-- A part of a text. -/
inductive Part
  | value (v : Value)
  /-- A value, with blanks around it. -/
  | padded (v : Value)
  /-- Further elements of an array. -/
  | more (xs : List Value)
  | member (key : List UInt8) (v : Value)
  /-- Further members of an object. -/
  | moreMembers (ms : List (List UInt8 × Value))

inductive Text : Part → List UInt8 → Prop
  | null : Text (.value .null) [110,117,108,108]
  | true : Text (.value (.bool .true)) [116,114,117,101]
  | false : Text (.value (.bool .false)) [102,97,108,115,101]
  | number {s : List UInt8} {d : Decimal} : Number s d → Text (.value (.number d)) s
  | string {raw s : List UInt8} : Quoted raw s → Text (.value (.string s)) raw
  | emptyArray {w : List UInt8} : Blank w → Text (.value (.array [])) (91 :: w ++ [93])
  | array {x : Value} {xs : List Value} {s t : List UInt8} : Text (.padded x) s →
      Text (.more xs) t → Text (.value (.array (x :: xs))) (91 :: s ++ t ++ [93])
  | emptyObject {w : List UInt8} : Blank w → Text (.value (.object [])) (123 :: w ++ [125])
  | object {key : List UInt8} {v : Value} {ms : List (List UInt8 × Value)} {s t : List UInt8} :
      Text (.member key v) s → Text (.moreMembers ms) t →
      Text (.value (.object ((key,v) :: ms))) (123 :: s ++ t ++ [125])
  | padded {v : Value} {w s w' : List UInt8} : Blank w → Text (.value v) s → Blank w' →
      Text (.padded v) (w ++ s ++ w')
  | noMore : Text (.more []) []
  | more {x : Value} {xs : List Value} {s t : List UInt8} : Text (.padded x) s →
      Text (.more xs) t → Text (.more (x :: xs)) (44 :: s ++ t)
  | member {w raw key w' s : List UInt8} {v : Value} : Blank w → Quoted raw key → Blank w' →
      Text (.padded v) s → Text (.member key v) (w ++ raw ++ w' ++ 58 :: s)
  | noMoreMembers : Text (.moreMembers []) []
  | moreMembers {key : List UInt8} {v : Value} {ms : List (List UInt8 × Value)}
      {s t : List UInt8} : Text (.member key v) s → Text (.moreMembers ms) t →
      Text (.moreMembers ((key,v) :: ms)) (44 :: s ++ t)

/-- The bytes are a JSON text of the value. -/
def Denotes (s : List UInt8) (v : Value) : Prop := Text (.padded v) s

section Rendering

/-- The digits of a number, without leading zeros. -/
def decimalDigits (n : ℕ) : List ℕ := if n = 0 then [0] else (Nat.digits 10 n).reverse

def decimal (n : ℕ) : List UInt8 := digitBytes (decimalDigits n)

def renderInt (z : ℤ) : List UInt8 := minusSign (z < 0) ++ decimal z.natAbs

mutual

/-- A value without blanks, escapes and exponents. -/
def Value.render : Value → List UInt8
  | .null => [110,117,108,108]
  | .bool true => [116,114,117,101]
  | .bool false => [102,97,108,115,101]
  | .number d => renderInt d.mantissa
  | .string s => quoted s
  | .array [] => [91,93]
  | .array (x :: xs) => 91 :: x.render ++ renderMore xs ++ [93]
  | .object [] => [123,125]
  | .object ((key,v) :: ms) => 123 :: (quoted key ++ 58 :: v.render) ++ renderMembers ms ++ [125]

def renderMore : List Value → List UInt8
  | [] => []
  | x :: xs => 44 :: x.render ++ renderMore xs

def renderMembers : List (List UInt8 × Value) → List UInt8
  | [] => []
  | (key,v) :: ms => 44 :: (quoted key ++ 58 :: v.render) ++ renderMembers ms

end

mutual

/-- The rendered text denotes the value. -/
def Value.Plain : Value → Prop
  | .null => True
  | .bool _ => True
  | .number d => d.exponent = 0
  | .string s => PlainText s
  | .array xs => morePlain xs
  | .object ms => membersPlain ms

def morePlain : List Value → Prop
  | [] => True
  | x :: xs => x.Plain ∧ morePlain xs

def membersPlain : List (List UInt8 × Value) → Prop
  | [] => True
  | (key,v) :: ms => PlainText key ∧ v.Plain ∧ membersPlain ms

end

def Part.render : Part → List UInt8
  | .value v => v.render
  | .padded v => v.render
  | .more xs => renderMore xs
  | .member key v => quoted key ++ 58 :: v.render
  | .moreMembers ms => renderMembers ms

def Part.Plain : Part → Prop
  | .value v => v.Plain
  | .padded v => v.Plain
  | .more xs => morePlain xs
  | .member key v => PlainText key ∧ v.Plain
  | .moreMembers ms => membersPlain ms

end Rendering

section Shortest

theorem plainText_nil : PlainText [] := ⟨[],fun _ h => absurd h List.not_mem_nil,rfl⟩

theorem PlainText.cons {c : Char} {s : List UInt8} (hc : PlainChar c) (hs : PlainText s) :
    PlainText (String.utf8EncodeChar c ++ s) := by
  obtain ⟨cs,hcs,rfl⟩ := hs
  exact ⟨c :: cs,List.forall_mem_cons.mpr ⟨hc,hcs⟩,rfl⟩

theorem PlainText.body {s : List UInt8} (h : PlainText s) : Body s s := by
  obtain ⟨cs,hcs,rfl⟩ := h
  induction cs with
  | nil => exact .nil
  | cons c cs ih =>
    obtain ⟨hc,hcs⟩ := List.forall_mem_cons.mp hcs
    exact .char hc (ih hcs)

theorem length_encode_le (c : Char) : (String.utf8EncodeChar c).length ≤ 4 := by
  rw [String.length_utf8EncodeChar]
  exact c.utf8Size_le_four

/-- A part of a text is at least as long as this rendering, and if it is not longer it is
this rendering and has this property. -/
def Shortest (s r : List UInt8) (P : Prop) : Prop :=
  r.length ≤ s.length ∧ (s.length = r.length → s = r ∧ P)

theorem Shortest.self {s : List UInt8} {P : Prop} (h : P) : Shortest s s P :=
  ⟨Nat.le_refl _,fun _ => ⟨rfl,h⟩⟩

theorem Shortest.longer {s r : List UInt8} {P : Prop} (h : r.length < s.length) :
    Shortest s r P :=
  ⟨h.le,fun heq => absurd heq h.ne'⟩

theorem Shortest.imp {s r : List UInt8} {P Q : Prop} (h : Shortest s r P) (himp : P → Q) :
    Shortest s r Q :=
  ⟨h.1,fun heq => (h.2 heq).imp_right himp⟩

/-- The rendering of a sequence of parts. -/
theorem Shortest.append {s t r u : List UInt8} {P Q : Prop} (hs : Shortest s r P)
    (ht : Shortest t u Q) : Shortest (s ++ t) (r ++ u) (P ∧ Q) := by
  have hsle := hs.1
  have htle := ht.1
  refine ⟨by simp only [List.length_append]; omega,?_⟩
  intro heq
  simp only [List.length_append] at heq
  obtain ⟨rfl,hp⟩ := hs.2 (by omega)
  obtain ⟨rfl,hq⟩ := ht.2 (by omega)
  exact ⟨rfl,hp,hq⟩

/-- Further bytes make a text longer. -/
theorem Shortest.blank (w : List UInt8) : Shortest w [] True :=
  ⟨Nat.zero_le _,fun heq => ⟨List.eq_nil_of_length_eq_zero heq,trivial⟩⟩

theorem Body.shortest {raw s : List UInt8} (h : Body raw s) : Shortest raw s (PlainText s) := by
  induction h with
  | nil => exact .self plainText_nil
  | @char c raw s hc _ ih =>
    have hchar : Shortest (String.utf8EncodeChar c) (String.utf8EncodeChar c) True := .self trivial
    exact (hchar.append ih).imp (fun h => h.2.cons hc)
  | escape _ _ ih =>
    have hle := ih.1
    apply Shortest.longer
    simp only [List.length_cons]
    omega
  | @unit hs raw s c hunit _ ih =>
    have hle := ih.1
    have hc := length_encode_le c
    have hfour := hunit.1
    apply Shortest.longer
    simp only [List.length_append,List.length_cons]
    omega
  | @pair hs ls raw s high low c hhigh _ _ _ _ _ ih =>
    have hle := ih.1
    have hc := length_encode_le c
    have hfour := hhigh.1
    apply Shortest.longer
    simp only [List.length_append,List.length_cons]
    omega

theorem Quoted.shortest {raw s : List UInt8} (h : Quoted raw s) :
    Shortest raw (quoted s) (PlainText s) := by
  obtain ⟨hbody⟩ := h
  have hopen : Shortest [34] [34] True := .self trivial
  exact ((hopen.append hbody.shortest).append hopen).imp (fun h => h.1.2)

end Shortest

section Digits

theorem length_digitBytes (ds : List ℕ) : (digitBytes ds).length = ds.length := List.length_map _

theorem digits_reverse {ds : List ℕ} (h : Digits ds) : ∀ d ∈ ds.reverse, d < 10 := by
  intro d hd
  exact h.2 d (List.mem_reverse.mp hd)

theorem digits_decimalDigits (n : ℕ) : Digits (decimalDigits n) := by
  unfold decimalDigits
  split
  · exact ⟨by simp,by simp⟩
  · next hn =>
    refine ⟨by simpa [Nat.digits_eq_nil_iff_eq_zero] using hn,?_⟩
    intro d hd
    exact Nat.digits_lt_base (by decide) (List.mem_reverse.mp hd)

theorem head_decimalDigits (n : ℕ) : (decimalDigits n).head? = some 0 → decimalDigits n = [0] := by
  unfold decimalDigits
  split
  · exact fun _ => rfl
  · next hn =>
    intro hhead
    rw [List.head?_reverse,List.getLast?_eq_some_getLast (Nat.digits_ne_nil_iff_ne_zero.mpr hn)]
      at hhead
    exact absurd (Option.some.inj hhead) (Nat.getLast_digit_ne_zero 10 hn)

theorem renderInt_natCast (n : ℕ) : renderInt n = decimal n := by
  rw [renderInt,decide_eq_false (Int.not_lt.mpr (Int.natCast_nonneg n)),Int.natAbs_natCast]
  rfl

theorem digitsValue_decimalDigits (n : ℕ) : digitsValue (decimalDigits n) = n := by
  unfold digitsValue decimalDigits
  split
  · next hn => simp [hn]
  · rw [List.reverse_reverse,Nat.ofDigits_digits]

theorem length_decimal_le {n k : ℕ} (hk : 0 < k) (h : n < 10 ^ k) : (decimal n).length ≤ k := by
  rw [decimal,length_digitBytes,decimalDigits]
  split
  · exact hk
  · rw [List.length_reverse,Nat.digits_length_le_iff (by decide)]
    exact h

/-- Leading zeros make digits longer. -/
theorem length_decimalDigits_le {ds : List ℕ} (h : Digits ds) :
    (decimalDigits (digitsValue ds)).length ≤ ds.length := by
  unfold decimalDigits
  split
  · exact List.length_pos_iff.mpr h.1
  · have hlen : ds.reverse.length = ds.length := List.length_reverse
    rw [List.length_reverse,Nat.digits_length_le_iff (by decide),← hlen]
    exact Nat.ofDigits_lt_base_pow_length (by decide) (digits_reverse h)

theorem decimalDigits_digitsValue {ds : List ℕ} (h : Digits ds)
    (hlead : ds.head? = some 0 → ds = [0]) : decimalDigits (digitsValue ds) = ds := by
  by_cases hzero : ds = [0]
  · rw [hzero]
    rfl
  · have hlast : ∀ hne : ds.reverse ≠ [], ds.reverse.getLast hne ≠ 0 := by
      intro hne hlast
      refine hzero (hlead ?_)
      rw [← List.getLast?_reverse,List.getLast?_eq_some_getLast hne,hlast]
    have hdigits : Nat.digits 10 (digitsValue ds) = ds.reverse :=
      Nat.digits_ofDigits 10 (by decide) _ (digits_reverse h) hlast
    have hne : digitsValue ds ≠ 0 := by
      rw [← Nat.digits_ne_nil_iff_ne_zero (b := 10),hdigits]
      simpa using h.1
    rw [decimalDigits,if_neg hne,hdigits,List.reverse_reverse]

theorem Fraction.shortest {f : List UInt8} {fs : List ℕ} (h : Fraction f fs) :
    Shortest f (digitBytes fs) (fs = []) := by
  cases h with
  | none => exact .self rfl
  | some _ => exact .longer (Nat.lt_succ_self _)

theorem Exponent.shortest {e : List UInt8} {x : ℤ} (h : Exponent e x) :
    Shortest e [] (x = 0) := by
  cases h with
  | none => exact .self rfl
  | unsigned _ _ | plus _ _ | minus _ _ => exact .longer (Nat.succ_pos _)

theorem natAbs_signed (minus : Bool) (n : ℕ) : (signed minus n).natAbs = n := by
  cases minus with
  | false => exact Int.natAbs_natCast n
  | true => exact (Int.natAbs_neg _).trans (Int.natAbs_natCast n)

/-- A minus sign before zero is not rendered. -/
theorem shortest_minusSign (minus : Bool) (n : ℕ) :
    Shortest (minusSign minus) (minusSign (signed minus n < 0)) True := by
  cases minus with
  | false =>
    have hpos : ¬signed false n < 0 := Int.not_lt.mpr (Int.natCast_nonneg n)
    rw [decide_eq_false hpos]
    exact .self trivial
  | true =>
    by_cases hneg : signed true n < 0
    · rw [decide_eq_true hneg]
      exact .self trivial
    · rw [decide_eq_false hneg]
      exact .blank _

theorem shortest_digits {int : List ℕ} (h : Digits int) (hlead : int.head? = some 0 → int = [0])
    {f : List UInt8} {fs : List ℕ} (hf : Fraction f fs) :
    Shortest (digitBytes int ++ f) (decimal (digitsValue (int ++ fs))) (fs = []) := by
  cases hf with
  | none =>
    have hsame : decimal (digitsValue (int ++ [])) = digitBytes int ++ [] := by
      rw [List.append_nil,List.append_nil,decimal,decimalDigits_digitsValue h hlead]
    rw [hsame]
    exact .self rfl
  | some hfs =>
    have hall : Digits (int ++ fs) := by
      refine ⟨List.append_ne_nil_of_left_ne_nil h.1 fs,?_⟩
      intro d hd
      rcases List.mem_append.mp hd with hd | hd
      · exact h.2 d hd
      · exact hfs.2 d hd
    have hle := length_decimalDigits_le hall
    apply Shortest.longer
    simp only [decimal,length_digitBytes,List.length_append,List.length_cons] at hle ⊢
    omega

theorem Number.shortest {s : List UInt8} {d : Decimal} (h : Number s d) :
    Shortest s (renderInt d.mantissa) (d.exponent = 0) := by
  cases h with
  | @mk minus int fs f e x hint hlead hf he =>
    have hparts := ((shortest_minusSign minus (digitsValue (int ++ fs))).append
      (shortest_digits hint hlead hf)).append he.shortest
    rw [List.append_nil,← List.append_assoc] at hparts
    rw [renderInt,natAbs_signed]
    apply hparts.imp
    rintro ⟨⟨-,rfl⟩,rfl⟩
    rfl

theorem signed_natAbs (z : ℤ) : signed (z < 0) z.natAbs = z := by
  by_cases hneg : z < 0
  · rw [signed,if_pos (decide_eq_true hneg),Int.ofNat_natAbs_of_nonpos hneg.le,Int.neg_neg]
  · rw [signed,if_neg (by simpa using hneg),Int.natAbs_of_nonneg (Int.not_lt.mp hneg)]

theorem number_renderInt (z : ℤ) : Number (renderInt z) { mantissa := z, exponent := 0 } := by
  have hdigits := digits_decimalDigits z.natAbs
  have hlead := head_decimalDigits z.natAbs
  have hnumber : Number (minusSign (z < 0) ++ decimal z.natAbs ++ [] ++ []) _ :=
    .mk hdigits hlead .none .none
  rw [List.append_nil,List.append_nil,List.append_nil,digitsValue_decimalDigits,signed_natAbs]
    at hnumber
  exact hnumber

end Digits

section Texts

theorem Shortest.byte (b : UInt8) : Shortest [b] [b] True := .self trivial

/-- No text of a part is shorter than its rendering, and no other is as short. -/
theorem Text.shortest {p : Part} {s : List UInt8} (h : Text p s) : Shortest s p.render p.Plain := by
  induction h with
  | null | true | false => exact .self trivial
  | number h => exact h.shortest
  | string h => exact h.shortest
  | @emptyArray w _ =>
    have hbracket := (Shortest.byte 91).append (Shortest.blank w) |>.append (.byte 93)
    exact hbracket.imp (fun _ => trivial)
  | @emptyObject w _ =>
    have hbrace := (Shortest.byte 123).append (Shortest.blank w) |>.append (.byte 125)
    exact hbrace.imp (fun _ => trivial)
  | array _ _ hx hxs =>
    have hparts := ((Shortest.byte 91).append hx).append hxs |>.append (.byte 93)
    exact hparts.imp (fun h => ⟨h.1.1.2,h.1.2⟩)
  | object _ _ hm hms =>
    have hparts := ((Shortest.byte 123).append hm).append hms |>.append (.byte 125)
    exact hparts.imp (fun h => ⟨h.1.1.2.1,h.1.1.2.2,h.1.2⟩)
  | @padded v w s w' _ _ _ hv =>
    have hparts := ((Shortest.blank w).append hv).append (.blank w')
    rw [List.nil_append,List.append_nil] at hparts
    exact hparts.imp (fun h => h.1.2)
  | noMore | noMoreMembers => exact .self trivial
  | more _ _ hx hxs =>
    have hparts := ((Shortest.byte 44).append hx).append hxs
    exact hparts.imp (fun h => ⟨h.1.2,h.2⟩)
  | @member w raw key w' s v _ hkey _ _ hv =>
    have hparts := ((Shortest.blank w).append hkey.shortest).append (.blank w') |>.append
      ((Shortest.byte 58).append hv)
    rw [List.nil_append,List.append_nil] at hparts
    exact hparts.imp (fun h => ⟨h.1.1.2,h.2.2⟩)
  | moreMembers _ _ hm hms =>
    have hparts := ((Shortest.byte 44).append hm).append hms
    exact hparts.imp (fun h => ⟨h.1.2.1,h.1.2.2,h.2⟩)

theorem blank_nil : Blank [] := fun _ h => absurd h List.not_mem_nil

theorem Text.bare {v : Value} {s : List UInt8} (h : Text (.value v) s) : Text (.padded v) s := by
  have hpadded := h.padded blank_nil blank_nil
  rwa [List.nil_append,List.append_nil] at hpadded

theorem Denotes.append_blank {v : Value} {s w : List UInt8} (h : Denotes s v) (hw : Blank w) :
    Denotes (s ++ w) v := by
  cases h with
  | padded hbefore hvalue hafter =>
    rw [List.append_assoc]
    refine .padded hbefore hvalue ?_
    intro b hb
    exact (List.mem_append.mp hb).elim (hafter b) (hw b)

theorem Text.bareMember {key : List UInt8} {v : Value} {s : List UInt8} (hkey : PlainText key)
    (h : Text (.padded v) s) : Text (.member key v) (quoted key ++ 58 :: s) := by
  have hmember := Text.member blank_nil ⟨hkey.body⟩ blank_nil h
  rwa [List.nil_append,List.append_nil] at hmember

mutual

theorem Value.text_render (v : Value) (h : v.Plain) : Text (.padded v) v.render := by
  cases v with
  | null => exact .bare .null
  | bool b =>
    cases b with
    | true => exact .bare .true
    | false => exact .bare .false
  | number d =>
    have hnumber := number_renderInt d.mantissa
    rw [Value.Plain] at h
    rw [← h] at hnumber
    exact .bare (.number hnumber)
  | string s => exact .bare (.string ⟨h.body⟩)
  | array xs =>
    cases xs with
    | nil => exact .bare (.emptyArray blank_nil)
    | cons x xs => exact .bare (.array (x.text_render h.1) (text_renderMore xs h.2))
  | object ms =>
    match ms, h with
    | [], _ => exact .bare (.emptyObject blank_nil)
    | (key,v) :: ms, h =>
      exact .bare (.object (.bareMember h.1 (v.text_render h.2.1)) (text_renderMembers ms h.2.2))

theorem text_renderMore (xs : List Value) (h : morePlain xs) : Text (.more xs) (renderMore xs) := by
  match xs, h with
  | [], _ => exact .noMore
  | x :: xs, h => exact .more (x.text_render h.1) (text_renderMore xs h.2)

theorem text_renderMembers (ms : List (List UInt8 × Value)) (h : membersPlain ms) :
    Text (.moreMembers ms) (renderMembers ms) := by
  match ms, h with
  | [], _ => exact .noMoreMembers
  | (key,v) :: ms, h =>
    exact .moreMembers (.bareMember h.1 (v.text_render h.2.1)) (text_renderMembers ms h.2.2)

end

/-- The texts that are as short as the rendering: the rendering, where it denotes the value. -/
theorem denotes_shortest_iff {v : Value} {s : List UInt8} :
    Denotes s v ∧ s.length ≤ v.render.length ↔ v.Plain ∧ s = v.render := by
  constructor
  · rintro ⟨h,hle⟩
    obtain ⟨hshort,heq⟩ := Text.shortest h
    obtain ⟨rfl,hplain⟩ := heq (Nat.le_antisymm hle hshort)
    exact ⟨hplain,rfl⟩
  · rintro ⟨hplain,rfl⟩
    exact ⟨v.text_render hplain,Nat.le_refl _⟩

end Texts

section Bytes

/-- No control characters of ASCII, and so no line breaks. -/
def Printable (s : List UInt8) : Prop := ∀ b ∈ s, 32 ≤ b

@[simp] theorem printable_nil : Printable [] := fun _ h => absurd h List.not_mem_nil

@[simp] theorem printable_cons {b : UInt8} {s : List UInt8} :
    Printable (b :: s) ↔ 32 ≤ b ∧ Printable s := List.forall_mem_cons

@[simp] theorem printable_append {s t : List UInt8} :
    Printable (s ++ t) ↔ Printable s ∧ Printable t := List.forall_mem_append

/-- A byte that a number from 32 on is cut to, if it is below 256. -/
theorem le_ofNat {n : ℕ} (hle : 32 ≤ n) (hlt : n < 256) : 32 ≤ UInt8.ofNat n := by
  rw [UInt8.le_iff_toNat_le,UInt8.toNat_ofNat_of_lt' hlt]
  exact hle

theorem le_ofNat_mod_add {m k : ℕ} (n : ℕ) (hm : 0 < m) (hk : 32 ≤ k) (hsum : m + k ≤ 256) :
    32 ≤ UInt8.ofNat (n % m + k) := by
  have hmod := Nat.mod_lt n hm
  exact le_ofNat (by omega) (by omega)

theorem printable_char {c : Char} (h : 32 ≤ c.toNat) : Printable (String.utf8EncodeChar c) := by
  have hlast (n : ℕ) : 32 ≤ UInt8.ofNat (n % 64 + 128) :=
    le_ofNat_mod_add n (by decide) (by decide) (by decide)
  unfold String.utf8EncodeChar
  dsimp only
  split
  · next hascii =>
    rw [printable_cons]
    exact ⟨le_ofNat h (Nat.lt_of_le_of_lt hascii (by decide)),printable_nil⟩
  · split
    · rw [printable_cons,printable_cons]
      exact ⟨le_ofNat_mod_add _ (by decide) (by decide) (by decide),hlast _,printable_nil⟩
    · split
      · rw [printable_cons,printable_cons,printable_cons]
        exact ⟨le_ofNat_mod_add _ (by decide) (by decide) (by decide),hlast _,hlast _,printable_nil⟩
      · rw [printable_cons,printable_cons,printable_cons,printable_cons]
        exact ⟨le_ofNat_mod_add _ (by decide) (by decide) (by decide),hlast _,hlast _,hlast _,
          printable_nil⟩

theorem PlainText.printable {s : List UInt8} (h : PlainText s) : Printable s := by
  obtain ⟨cs,hcs,rfl⟩ := h
  intro b hb
  obtain ⟨c,hc,hb⟩ := List.mem_flatMap.mp hb
  exact printable_char (hcs c hc).1 b hb

theorem printable_digitBytes {ds : List ℕ} (h : Digits ds) : Printable (digitBytes ds) := by
  intro b hb
  obtain ⟨d,hd,rfl⟩ := List.mem_map.mp hb
  have hlt := h.2 d hd
  exact le_ofNat (by omega) (by omega)

theorem printable_renderInt (z : ℤ) : Printable (renderInt z) := by
  have hdecimal : Printable (decimal z.natAbs) := printable_digitBytes (digits_decimalDigits _)
  unfold renderInt minusSign
  split
  · simpa using hdecimal
  · simpa using hdecimal

mutual

theorem Value.printable_render (v : Value) (h : v.Plain) : Printable v.render := by
  cases v with
  | null => simp [Value.render]
  | bool b => cases b <;> simp [Value.render]
  | number d => exact printable_renderInt d.mantissa
  | string s => simpa [Value.render,quoted] using h.printable
  | array xs =>
    cases xs with
    | nil => simp [Value.render]
    | cons x xs =>
      have hx := x.printable_render h.1
      have hxs := printable_renderMore xs h.2
      simp [Value.render,hx,hxs]
  | object ms =>
    match ms, h with
    | [], _ => simp [Value.render]
    | (key,v) :: ms, h =>
      have hkey := PlainText.printable h.1
      have hv := v.printable_render h.2.1
      have hms := printable_renderMembers ms h.2.2
      simp [Value.render,quoted,hkey,hv,hms]

theorem printable_renderMore (xs : List Value) (h : morePlain xs) :
    Printable (renderMore xs) := by
  match xs, h with
  | [], _ => simp [renderMore]
  | x :: xs, h =>
    have hx := x.printable_render h.1
    have hxs := printable_renderMore xs h.2
    simp [renderMore,hx,hxs]

theorem printable_renderMembers (ms : List (List UInt8 × Value)) (h : membersPlain ms) :
    Printable (renderMembers ms) := by
  match ms, h with
  | [], _ => simp [renderMembers]
  | (key,v) :: ms, h =>
    have hkey := PlainText.printable h.1
    have hv := v.printable_render h.2.1
    have hms := printable_renderMembers ms h.2.2
    simp [renderMembers,quoted,hkey,hv,hms]

end

end Bytes
end JsonText
