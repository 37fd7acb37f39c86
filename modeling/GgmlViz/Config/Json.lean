import GgmlViz.Config.Config

/-! # JSON values

The values of the JSON library, with the member access and the assignment that the
configuration code uses. Parsing, dumping and the conversions to C++ types belong to the
library and are parameters.
-/
namespace GgmlViz
open LittleEndian

/-- `nlohmann::json`; the members of an object are sorted by their keys. -/
inductive Json
  | null
  | boolean (b : Bool)
  /-- A number without sign, fraction and exponent. -/
  | unsigned (n : UInt64)
  /-- A number with a minus sign. -/
  | integer (n : Int64)
  /-- Any other number, as the bits of a `double`. -/
  | float (bits : UInt64)
  | string (s : Bytes)
  | array (xs : List Json)
  | object (members : List (Bytes × Json))

namespace Json

/-- `contains(key)`, and `operator[](key)` where it does. -/
def member (key : Bytes) : Json → Option Json
  | .object members => members.lookup key
  | _ => none

/-- What a member converts to, if it is there and converts. -/
def value {α : Type} (key : Bytes) (conv : Json → Except Bytes α) (j : Json) : Option α :=
  (j.member key).bind (fun v => (conv v).toOption)

/-- The same for a member of a member. -/
def valueIn {α : Type} (outer key : Bytes) (conv : Json → Except Bytes α) (j : Json) : Option α :=
  (j.member outer).bind (value key conv)

/-- Assignment to a member in a sorted list of members. -/
def setMember (key : Bytes) (v : Json) : List (Bytes × Json) → List (Bytes × Json)
  | [] => [(key,v)]
  | (k,x) :: members =>
    if key = k then (k,v) :: members
    else if key < k then (key,v) :: (k,x) :: members
    else (k,x) :: setMember key v members

/-- `j[key] = v`, for a value that is an object or still null. -/
def set (j : Json) (key : Bytes) (v : Json) : Json :=
  match j with
  | .object members => .object (setMember key v members)
  | .null => .object [(key,v)]
  | j => j

/-- `j[outer][key] = v`. -/
def setIn (j : Json) (outer key : Bytes) (v : Json) : Json :=
  j.set outer (((j.member outer).getD .null).set key v)

/-- The text in UTF-8. -/
def ValidText (s : Bytes) : Prop := (ByteArray.mk s.toArray).IsValidUTF8

instance (s : Bytes) : Decidable (ValidText s) :=
  inferInstanceAs (Decidable (ByteArray.IsValidUTF8 _))

/-- Every string and every key is valid UTF-8. -/
inductive Utf8 : Json → Prop
  | null : Utf8 .null
  | boolean (b : Bool) : Utf8 (.boolean b)
  | unsigned (n : UInt64) : Utf8 (.unsigned n)
  | integer (n : Int64) : Utf8 (.integer n)
  | float (bits : UInt64) : Utf8 (.float bits)
  | string {s : Bytes} : ValidText s → Utf8 (.string s)
  | array {xs : List Json} : (∀ x ∈ xs, Utf8 x) → Utf8 (.array xs)
  | object {members : List (Bytes × Json)} : (∀ m ∈ members, ValidText m.1) →
      (∀ m ∈ members, Utf8 m.2) → Utf8 (.object members)

end Json

/-- What the code uses of the library; the errors are the texts of its exceptions. -/
structure JsonLibrary where
  parse : Bytes → Except Bytes Json
  /-- `dump(2)`. -/
  dump : Json → Except Bytes Bytes
  getBool : Json → Except Bytes Bool
  getU32 : Json → Except Bytes UInt32
  getU64 : Json → Except Bytes UInt64
  getString : Json → Except Bytes Bytes
  getU32s : Json → Except Bytes (List UInt32)
  getStrings : Json → Except Bytes (List Bytes)

namespace JsonLibrary

/-- A value that can be dumped, and is parsed back. -/
def RoundTrips (lib : JsonLibrary) (j : Json) : Prop :=
  ∃ text, lib.dump j = .ok text ∧ lib.parse text = .ok j

/-- Values in range are converted exactly. -/
structure Exact (lib : JsonLibrary) : Prop where
  bool (b : Bool) : lib.getBool (.boolean b) = .ok b
  u32 (n : UInt32) : lib.getU32 (.unsigned n.toUInt64) = .ok n
  u64 (n : UInt64) : lib.getU64 (.unsigned n) = .ok n
  string (s : Bytes) : lib.getString (.string s) = .ok s
  u32s (ns : List UInt32) :
    lib.getU32s (.array (ns.map (fun n => .unsigned n.toUInt64))) = .ok ns
  strings (ss : List Bytes) : lib.getStrings (.array (ss.map .string)) = .ok ss

section Texts
variable (texts : List (Bytes × Json))

def typeError {α : Type} (expected : String) : Except Bytes α :=
  .error (ascii "[json.exception.type_error.302] type must be " ++ ascii expected)

/-- The conversion to an unsigned integer, for the values that are not a `double`. -/
def convertU64 : Json → Except Bytes UInt64
  | .unsigned n => .ok n
  | .integer n => .ok n.toUInt64
  | _ => typeError "number"

def convertU32 : Json → Except Bytes UInt32
  | .boolean b => .ok b.toNat.toUInt32
  | j => (convertU64 j).map UInt64.toUInt32

def convertString : Json → Except Bytes Bytes
  | .string s => .ok s
  | _ => typeError "string"

/-- A library that knows these texts, and dumps the first. -/
def ofTexts : JsonLibrary where
  parse text := (texts.lookup text).elim
    (.error (ascii "[json.exception.parse_error.101] parse error")) .ok
  dump _ := texts.head?.elim (.error (ascii "[json.exception.type_error.316]")) (fun t => .ok t.1)
  getBool
    | .boolean b => .ok b
    | _ => typeError "boolean"
  getU32 := convertU32
  getU64 := convertU64
  getString := convertString
  getU32s
    | .array xs => xs.mapM convertU32
    | _ => typeError "array"
  getStrings
    | .array xs => xs.mapM convertString
    | _ => typeError "array"

theorem ofTexts_roundTrips (text : Bytes) (j : Json) : (ofTexts [(text,j)]).RoundTrips j :=
  ⟨text,rfl,by simp [ofTexts]⟩

theorem ofTexts_exact : (ofTexts texts).Exact where
  bool _ := rfl
  u32 n := by simp [ofTexts,convertU32,convertU64,Except.map]
  u64 _ := rfl
  string _ := rfl
  u32s ns := by
    induction ns with
    | nil => rfl
    | cons n ns ih =>
      simp only [ofTexts] at ih ⊢
      rw [List.map_cons,List.mapM_cons,ih]
      simp [convertU32,convertU64,Except.map,bind,Except.bind,pure,Except.pure]
  strings ss := by
    induction ss with
    | nil => rfl
    | cons s ss ih =>
      simp only [ofTexts] at ih ⊢
      rw [List.map_cons,List.mapM_cons,ih]
      rfl

end Texts
end JsonLibrary
end GgmlViz
