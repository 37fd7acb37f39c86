import GgmlViz.Ipc.SharedRing
import GgmlViz.Foundation.Transition

/-! # The shared ring as several processes use it

`write` and `read` cut into their single shared accesses: one load of a counter, one cell
copied, one store of a counter. Process 0 writes; all others read.
-/
namespace GgmlViz.Ring
open LittleEndian SharedRegion RingHeader
variable {α : Type}

/-- The next shared access of a process. -/
inductive Pc (α : Type)
  | idle
  -- write
  | writeHead (data : List α)
  | writeTail (data : List α) (head : UInt32)
  | writeCopy (data : List α) (head : UInt32) (i : ℕ)
  | writeStore (data : List α) (head : UInt32)
  -- read
  | readHead (n : ℕ)
  | readTail (n : ℕ) (head : UInt32)
  | readCopy (n : ℕ) (tail : UInt32) (dest : List α)
  | readStore (n : ℕ) (tail : UInt32) (dest : List α)

/-- What a step contributed. -/
inductive Obs (α : Type)
  /-- The call returned false. -/
  | refused
  | loadedTail
  /-- `head` was stored, and the call returned true. -/
  | written (data : List α)
  /-- `tail` was stored, and the call returned true. -/
  | returned (dest : List α)

/-- The test of the `for` loop of `write`. -/
def Pc.writeNext (data : List α) (head : UInt32) (i : ℕ) : Pc α :=
  if i < data.length then .writeCopy data head i else .writeStore data head

/-- The test of the `for` loop of `read`. -/
def Pc.readNext (n : ℕ) (tail : UInt32) (dest : List α) : Pc α :=
  if dest.length < n then .readCopy n tail dest else .readStore n tail dest

/-- One shared access. -/
def exec : Pc α → SharedRegion α → Option (SharedRegion α × Pc α × List (Obs α))
  | .idle, _ => none
  | .writeHead data, m => some (m,.writeTail data m.head,[])
  | .writeTail data head, m =>
    if (freeSpace m.capacity head m.tail).toNat < data.length then some (m,.idle,[.refused])
    else some (m,Pc.writeNext data head 0,[])
  | .writeCopy data head i, m =>
    (data[i]?).map (fun x =>
      ({ m with base := Function.update m.base (cellIndex m.capacity head i) x },
        Pc.writeNext data head (i + 1),[]))
  | .writeStore data head, m =>
    some ({ m with head := UInt32.ofNat (cellIndex m.capacity head data.length) },.idle,
      [.written data])
  | .readHead n, m => some (m,.readTail n m.head,[])
  | .readTail n head, m =>
    if (avail m.capacity head m.tail).toNat < n then some (m,.idle,[.loadedTail,.refused])
    else some (m,Pc.readNext n m.tail [],[.loadedTail])
  | .readCopy n tail dest, m =>
    some (m,Pc.readNext n tail (dest ++ [m.base (cellIndex m.capacity tail dest.length)]),[])
  | .readStore n tail dest, m =>
    some ({ m with tail := UInt32.ofNat (cellIndex m.capacity tail n) },.idle,[.returned dest])

inductive Call (α : Type)
  | write (data : List α)
  | read (n : ℕ)

def Call.entry : Call α → Pc α
  | .write data => .writeHead data
  | .read n => .readHead n

/-- The region, the processes, and what they did so far. -/
structure World (α : Type) where
  region : SharedRegion α
  pc : ℕ → Pc α
  log : List (ℕ × Obs α)

inductive Action (α : Type)
  | call (t : ℕ) (c : Call α)
  | tick (t : ℕ)

def World.put (w : World α) (t : ℕ) (m : SharedRegion α) (p : Pc α) (os : List (Obs α)) : World α :=
  { region := m, pc := Function.update w.pc t p, log := w.log ++ os.map (fun o => (t,o)) }

def World.act : Action α → World α → Option (World α)
  | .call t c, w =>
    match w.pc t with
    | .idle => some (w.put t w.region c.entry [])
    | _ => none
  | .tick t, w => (exec (w.pc t) w.region).map (fun (m,p,os) => w.put t m p os)

/-- A region fresh from `create` with this size, and no call under way. -/
def World.Created (sz : ℕ) (w : World α) : Prop :=
  ∃ o old size, size.toNat = sz ∧ create o old size = .ok w.region ∧ w.pc = (fun _ => .idle) ∧
    w.log = []

/-- The runs on a new region in which processes make these calls only. -/
def ringSystem (sz : ℕ) (may : World α → Action α → Bool) :
    Transition.System (World α) (Action α) where
  init := World.Created sz
  may w a := may w a = true
  act := World.act

instance (sz : ℕ) (may : World α → Action α → Bool) (w : World α) (a : Action α) :
    Decidable ((ringSystem sz may).may w a) :=
  inferInstanceAs (Decidable (may w a = true))

section Contributions

def writtenIn (obs : List (ℕ × Obs α)) : List α :=
  obs.flatMap (fun o => match o.2 with | .written data => data | _ => [])

/-- The bytes of the successful reads, in the order of their stores of `tail`. -/
def returnedIn (obs : List (ℕ × Obs α)) : List α :=
  obs.flatMap (fun o => match o.2 with | .returned dest => dest | _ => [])

/-- Whether process `t` has loaded `tail` and nothing was returned since. -/
def freshStep (t : ℕ) (b : Bool) : ℕ × Obs α → Bool
  | (u,.loadedTail) => if u = t then true else b
  | (_,.returned dest) => b && dest.isEmpty
  | _ => b

@[simp] theorem writtenIn_append (xs ys : List (ℕ × Obs α)) :
    writtenIn (xs ++ ys) = writtenIn xs ++ writtenIn ys := List.flatMap_append

@[simp] theorem returnedIn_append (xs ys : List (ℕ × Obs α)) :
    returnedIn (xs ++ ys) = returnedIn xs ++ returnedIn ys := List.flatMap_append

end Contributions

namespace World

def written (w : World α) : List α := writtenIn w.log
def returned (w : World α) : List α := returnedIn w.log
def fresh (w : World α) (t : ℕ) : Bool := w.log.foldl (freshStep t) false

/-- How many bytes were written and not yet returned. -/
def unread (w : World α) : ℕ := w.written.length - w.returned.length

section Put
variable (w : World α) (t : ℕ) (m : SharedRegion α) (p : Pc α) (os : List (Obs α))

@[simp] theorem put_region : (w.put t m p os).region = m := rfl
@[simp] theorem put_pc : (w.put t m p os).pc t = p := Function.update_self ..
theorem put_pc_of_ne {u : ℕ} (h : u ≠ t) : (w.put t m p os).pc u = w.pc u :=
  Function.update_of_ne h ..
@[simp] theorem put_written :
    (w.put t m p os).written = w.written ++ writtenIn (os.map (fun o => (t,o))) := by
  simp [put,written]
@[simp] theorem put_returned :
    (w.put t m p os).returned = w.returned ++ returnedIn (os.map (fun o => (t,o))) := by
  simp [put,returned]
@[simp] theorem put_fresh (u : ℕ) :
    (w.put t m p os).fresh u = (os.map (fun o => (t,o))).foldl (freshStep u) (w.fresh u) := by
  simp [put,fresh]

end Put

variable {w w' : World α} {t : ℕ}

theorem act_call {c : Call α} (h : act (.call t c) w = some w') :
    w.pc t = .idle ∧ w' = w.put t w.region c.entry [] := by
  simp only [act] at h
  split at h
  · next hidle => exact ⟨hidle,(Option.some.inj h).symm⟩
  · cases h

theorem act_tick (h : act (.tick t) w = some w') :
    ∃ m p os, exec (w.pc t) w.region = some (m,p,os) ∧ w' = w.put t m p os := by
  obtain ⟨⟨m,p,os⟩,hexec,rfl⟩ := Option.map_eq_some_iff.mp h
  exact ⟨m,p,os,hexec,rfl⟩

end World
end GgmlViz.Ring
