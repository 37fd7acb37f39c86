import Mathlib.Tactic.Ring
import Mathlib.Data.List.Basic

/-! # Fixed-width little-endian words

A word of `w` bytes is written low byte first. Writing truncates to `w` bytes, so
reading back gives the number modulo `256 ^ w`; reading then writing gives back
exactly the bytes that were read.
-/
namespace LittleEndian

abbrev Bytes := List UInt8

/-- The `w` low bytes of `n`, least significant first. -/
def leBytes : ℕ → ℕ → Bytes
  | 0, _ => []
  | w + 1, n => UInt8.ofNat n :: leBytes w (n / 256)

/-- The number spelled by little-endian bytes. -/
def leValue : Bytes → ℕ
  | [] => 0
  | b :: bs => b.toNat + 256 * leValue bs

@[simp] theorem length_leBytes (w n : ℕ) : (leBytes w n).length = w := by
  induction w generalizing n with
  | zero => rfl
  | succ w ih => simp [leBytes,ih]

theorem leValue_leBytes (w n : ℕ) : leValue (leBytes w n) = n % 256 ^ w := by
  induction w generalizing n with
  | zero => simp [leBytes,leValue,Nat.mod_one]
  | succ w ih =>
    have hb : (UInt8.ofNat n).toNat = n % 256 := by simp
    rw [leBytes,leValue,ih,hb,pow_succ',Nat.mod_mul]

theorem leValue_leBytes_of_lt {w n : ℕ} (h : n < 256 ^ w) : leValue (leBytes w n) = n := by
  rw [leValue_leBytes,Nat.mod_eq_of_lt h]

theorem leValue_lt (bs : Bytes) : leValue bs < 256 ^ bs.length := by
  induction bs with
  | nil => simp [leValue]
  | cons b bs ih =>
    have hb := b.toNat_lt
    simp only [leValue,List.length_cons,pow_succ]
    omega

theorem leBytes_leValue (bs : Bytes) : leBytes bs.length (leValue bs) = bs := by
  induction bs with
  | nil => rfl
  | cons b bs ih =>
    have hb := b.toNat_lt
    have hdiv : (b.toNat + 256 * leValue bs) / 256 = leValue bs := by omega
    have hlow : UInt8.ofNat (b.toNat + 256 * leValue bs) = b := by
      apply UInt8.toNat_inj.mp
      simp
    simp only [List.length_cons,leBytes,leValue,hdiv,ih,hlow]

theorem leBytes_leValue_of_length {w : ℕ} {bs : Bytes} (h : bs.length = w) :
    leBytes w (leValue bs) = bs := by
  subst h
  exact leBytes_leValue bs

end LittleEndian
