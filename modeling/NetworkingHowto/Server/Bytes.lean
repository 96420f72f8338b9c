import Mathlib.Algebra.Order.Group.Nat
import Mathlib.Data.List.Basic

/-! The 8-byte size header: host byte order, `htobe64`, and the big-endian image on the
wire. -/
namespace NetworkingHowto.Bytes

inductive Endian where
  | little | big
deriving DecidableEq, Repr

def leBytes : Nat → Nat → List UInt8
  | 0, _ => []
  | n+1, x => UInt8.ofNat x :: leBytes n (x / 256)

def leValue : List UInt8 → Nat
  | [] => 0
  | b :: bs => b.toNat + 256 * leValue bs

def storeU64 : Endian → Nat → List UInt8
  | .little, x => leBytes 8 x
  | .big, x => (leBytes 8 x).reverse

def loadU64 : Endian → List UInt8 → Nat
  | .little, bs => leValue bs
  | .big, bs => leValue bs.reverse

/-- Big-endian image of a 64-bit value: the wire format of the size header. -/
def be64 (x : Nat) : List UInt8 := (leBytes 8 x).reverse

/-- `htobe64`: the value whose memory image on this host is `be64 x`. -/
def htobe64 (e : Endian) (x : Nat) : Nat := loadU64 e (be64 x)

@[simp] theorem length_leBytes (n x : Nat) : (leBytes n x).length = n := by
  induction n generalizing x with
  | zero => rfl
  | succ n ih => simp [leBytes, ih]

@[simp] theorem length_be64 (x : Nat) : (be64 x).length = 8 := by simp [be64]

theorem leValue_leBytes (n x : Nat) : leValue (leBytes n x) = x % 256^n := by
  induction n generalizing x with
  | zero => simp [leBytes, leValue, Nat.mod_one]
  | succ n ih =>
    rw [leBytes, leValue, ih, pow_succ', Nat.mod_mul]
    rfl

theorem leBytes_leValue (bs : List UInt8) : leBytes bs.length (leValue bs) = bs := by
  induction bs with
  | nil => rfl
  | cons b bs ih =>
    have hb : b.toNat < 256 := b.toNat_lt_size
    have hdiv : (b.toNat + 256 * leValue bs) / 256 = leValue bs := by omega
    have hmod : UInt8.ofNat (b.toNat + 256 * leValue bs) = b := by
      apply UInt8.eq_of_val_eq
      apply Fin.ext
      show (b.toNat + 256 * leValue bs) % 256 = b.toNat
      omega
    rw [List.length_cons, leBytes, leValue, hdiv, ih, hmod]

theorem leValue_lt (bs : List UInt8) : leValue bs < 256^bs.length := by
  induction bs with
  | nil => simp [leValue]
  | cons b bs ih =>
    have hb : b.toNat < 256 := b.toNat_lt_size
    rw [leValue, List.length_cons, pow_succ']
    omega

theorem loadU64_storeU64 (e : Endian) (x : Nat) : loadU64 e (storeU64 e x) = x % 2^64 := by
  cases e <;> simp [loadU64, storeU64, leValue_leBytes]

theorem storeU64_loadU64 (e : Endian) {bs : List UInt8} (h : bs.length = 8) :
    storeU64 e (loadU64 e bs) = bs := by
  cases e with
  | little => simpa [storeU64, loadU64, h] using leBytes_leValue bs
  | big =>
    have hr := leBytes_leValue bs.reverse
    rw [List.length_reverse, h] at hr
    simp [storeU64, loadU64, hr]

/-- The server's `write(&file_size, 8)` after `htobe64` sends the big-endian image. -/
@[simp] theorem storeU64_htobe64 (e : Endian) (x : Nat) : storeU64 e (htobe64 e x) = be64 x :=
  storeU64_loadU64 e (length_be64 x)

theorem be64_leValue {bs : List UInt8} (h : bs.length = 8) : be64 (leValue bs) = bs.reverse := by
  rw [be64, ← h, leBytes_leValue]

theorem htobe64_htobe64 (e : Endian) (x : Nat) : htobe64 e (htobe64 e x) = x % 2^64 := by
  cases e with
  | little =>
    rw [htobe64, htobe64, loadU64, loadU64, be64_leValue (length_be64 x), be64,
      List.reverse_reverse, leValue_leBytes]
    rfl
  | big =>
    simp [htobe64, loadU64, be64, leValue_leBytes]

theorem htobe64_loadU64_be64 (e : Endian) (x : Nat) : htobe64 e (loadU64 e (be64 x)) = x % 2^64 :=
  htobe64_htobe64 e x

example : be64 2500 = [0, 0, 0, 0, 0, 0, 9, 196] := by decide

end NetworkingHowto.Bytes
