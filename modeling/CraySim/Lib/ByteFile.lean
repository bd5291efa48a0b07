/-
  Subject:   Files as lists of bytes.

  Reading a window, overwriting a range, and numbers of a fixed number of bytes.

  * `window`, `splice` -- the bytes at a position, and the file with a range replaced,
  * `Stands` -- what a file holds at a position,
  * `window_append` -- a window behind a known prefix,
  * `bytesBE`, `valueBE` -- numbers, most significant byte first, and their round trip.
-/
import Mathlib.Data.List.Induction
import Mathlib.Algebra.Order.Ring.Nat
import Mathlib.Tactic.Ring

namespace ByteFile

variable {α : Type}

/-! ## 1. Ranges -/

/-- The `n` bytes at `pos`, or as many of them as there are. -/
def window (xs : List α) (pos n : Nat) : List α := (xs.drop pos).take n

/-- `xs` with `ys` written at `pos`. -/
def splice (xs : List α) (pos : Nat) (ys : List α) : List α :=
  xs.take pos ++ ys ++ xs.drop (pos + ys.length)

theorem length_window (xs : List α) (pos n : Nat) :
    (window xs pos n).length = min n (xs.length - pos) := by
  simp [window]

theorem window_append (pre ys post : List α) :
    window (pre ++ (ys ++ post)) pre.length ys.length = ys := by
  simp [window]

section stands
variable {xs ys zs : List α} {pos : Nat}

/-- `ys` stands in `xs` at `pos`. -/
def Stands (xs : List α) (pos : Nat) (ys : List α) : Prop := ∃ pre post,
  xs = pre ++ (ys ++ post) ∧ pre.length = pos

theorem Stands.left (h : Stands xs pos (ys ++ zs)) : Stands xs pos ys := by
  obtain ⟨pre, post, rfl, hpos⟩ := h
  exact ⟨pre, zs ++ post, by rw [List.append_assoc], hpos⟩

theorem Stands.right (h : Stands xs pos (ys ++ zs)) : Stands xs (pos + ys.length) zs := by
  obtain ⟨pre, post, rfl, rfl⟩ := h
  exact ⟨pre ++ ys, post, by simp only [List.append_assoc], List.length_append⟩

theorem Stands.window_eq (h : Stands xs pos ys) : window xs pos ys.length = ys := by
  obtain ⟨pre, post, rfl, rfl⟩ := h
  exact window_append pre ys post

theorem Stands.le_length (h : Stands xs pos ys) : pos + ys.length ≤ xs.length := by
  obtain ⟨pre, post, rfl, rfl⟩ := h
  rw [List.length_append, List.length_append]
  omega

theorem stands_append (pre ys post : List α) : Stands (pre ++ (ys ++ post)) pre.length ys :=
  ⟨pre, post, rfl, rfl⟩

end stands

section splice
variable {xs y : List α} {pos : Nat}

@[simp] theorem splice_nil : splice xs pos [] = xs := by
  rw [splice, List.append_nil, List.length_nil, Nat.add_zero, List.take_append_drop]

theorem length_splice (h : pos + y.length ≤ xs.length) : (splice xs pos y).length = xs.length := by
  simp only [splice, List.length_append, List.length_take, List.length_drop]
  omega

/-- What lies before the end of the range: the old bytes, then the new ones. -/
theorem take_splice (h : pos ≤ xs.length) :
    (splice xs pos y).take (pos + y.length) = xs.take pos ++ y := by
  have hlen : (xs.take pos ++ y).length = pos + y.length := by
    rw [List.length_append, List.length_take, Nat.min_eq_left h]
  rw [splice, ← hlen, List.take_left]

theorem drop_splice (h : pos ≤ xs.length) :
    (splice xs pos y).drop (pos + y.length) = xs.drop (pos + y.length) := by
  have hlen : (xs.take pos ++ y).length = pos + y.length := by
    rw [List.length_append, List.length_take, Nat.min_eq_left h]
  rw [splice]
  exact List.drop_left' hlen

theorem le_length_splice (h : pos ≤ xs.length) : pos + y.length ≤ (splice xs pos y).length := by
  simp only [splice, List.length_append, List.length_take, List.length_drop]
  omega

theorem splice_splice {z : List α} (h : pos ≤ xs.length) :
    splice (splice xs pos y) (pos + y.length) z = splice xs pos (y ++ z) := by
  have hrest : (splice xs pos y).drop (pos + y.length + z.length) =
      xs.drop (pos + (y ++ z).length) := by
    rw [← List.drop_drop, drop_splice h, List.drop_drop, List.length_append, Nat.add_assoc]
  rw [splice, take_splice h, hrest, splice]
  simp only [List.append_assoc]

/-- What stands in the file replaced by as much of something else. -/
theorem splice_append (pre rest : List α) (hlen : y.length = xs.length) :
    splice (pre ++ (xs ++ rest)) pre.length y = pre ++ (y ++ rest) := by
  rw [splice, List.take_left, hlen, ← List.append_assoc pre xs, List.append_assoc pre y,
    List.drop_left' (by rw [List.length_append])]

theorem splice_length (pre y : List α) : splice pre pre.length y = pre ++ y := by
  rw [splice, List.take_length, List.drop_eq_nil_of_le (Nat.le_add_right _ _), List.append_nil]

end splice

/-! ## 2. Numbers -/

/-- The last `n` bytes of a number, most significant byte first. -/
def bytesBE : (n : Nat) → Nat → List (BitVec 8)
  | 0, _ => []
  | n + 1, x => bytesBE n (x / 256) ++ [BitVec.ofNat 8 x]

/-- The number of a list of bytes. -/
def valueBE (bs : List (BitVec 8)) : Nat := bs.foldl (fun v b => 256 * v + b.toNat) 0

theorem bytesBE_succ (n x : Nat) :
    bytesBE (n + 1) x = bytesBE n (x / 256) ++ [BitVec.ofNat 8 x] := rfl

@[simp] theorem length_bytesBE (n x : Nat) : (bytesBE n x).length = n := by
  induction n generalizing x with
  | zero => rfl
  | succ n ih => rw [bytesBE_succ, List.length_append, ih, List.length_singleton]

theorem valueBE_concat (bs : List (BitVec 8)) (b : BitVec 8) :
    valueBE (bs ++ [b]) = 256 * valueBE bs + b.toNat := by
  rw [valueBE, List.foldl_append]
  rfl

/-- **Round trip**: the bytes of a number spell its last bytes. -/
theorem valueBE_bytesBE (n x : Nat) : valueBE (bytesBE n x) = x % 256 ^ n := by
  induction n generalizing x with
  | zero => rw [pow_zero, Nat.mod_one]; rfl
  | succ n ih =>
    have hbyte : (BitVec.ofNat 8 x).toNat = x % 256 := BitVec.toNat_ofNat x 8
    rw [bytesBE_succ, valueBE_concat, ih, hbyte, Nat.pow_succ, Nat.mul_comm (256 ^ n) 256,
      Nat.mod_mul, Nat.add_comm]

theorem valueBE_lt (bs : List (BitVec 8)) : valueBE bs < 256 ^ bs.length := by
  induction bs using List.reverseRecOn with
  | nil => exact Nat.one_pos
  | append_singleton bs b ih =>
    have hb : b.toNat < 256 := b.isLt
    rw [valueBE_concat, List.length_append, List.length_singleton, pow_succ]
    omega

theorem valueBE_cons (b : BitVec 8) (bs : List (BitVec 8)) :
    valueBE (b :: bs) = b.toNat * 256 ^ bs.length + valueBE bs := by
  induction bs using List.reverseRecOn with
  | nil => simp [valueBE]
  | append_singleton bs c ih =>
    rw [← List.cons_append, valueBE_concat, valueBE_concat, ih, List.length_append,
      List.length_singleton, pow_succ]
    ring

/-- The last `n` bytes of a number, least significant byte first. -/
def bytesLE : (n : Nat) → Nat → List (BitVec 8)
  | 0, _ => []
  | n + 1, x => BitVec.ofNat 8 x :: bytesLE n (x / 256)

/-- The number of a list of bytes, least significant byte first. -/
def valueLE : List (BitVec 8) → Nat
  | [] => 0
  | b :: bs => b.toNat + 256 * valueLE bs

theorem bytesLE_succ (n x : Nat) :
    bytesLE (n + 1) x = BitVec.ofNat 8 x :: bytesLE n (x / 256) := rfl

@[simp] theorem length_bytesLE (n x : Nat) : (bytesLE n x).length = n := by
  induction n generalizing x with
  | zero => rfl
  | succ n ih => rw [bytesLE_succ, List.length_cons, ih]

/-- **Round trip**, least significant byte first. -/
theorem valueLE_bytesLE (n x : Nat) : valueLE (bytesLE n x) = x % 256 ^ n := by
  induction n generalizing x with
  | zero => rw [pow_zero, Nat.mod_one]; rfl
  | succ n ih =>
    have hbyte : (BitVec.ofNat 8 x).toNat = x % 256 := BitVec.toNat_ofNat x 8
    rw [bytesLE_succ, valueLE, ih, hbyte, Nat.pow_succ, Nat.mul_comm (256 ^ n) 256,
      Nat.mod_mul]

end ByteFile
