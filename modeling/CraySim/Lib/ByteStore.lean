/-
  Subject:   A byte memory with big-endian loads and stores.

  * `load n mem a`, `store n mem a v` -- `n` bytes from `a` on, most significant byte first,
  * `load_store` -- a stored value is loaded again,
  * `load_store_of_disjoint`, `store_of_outside` -- a store touches its own bytes only,
  * `load_congr` -- a load depends on its own bytes only,
  * `scatter` -- values stored at places of their own, and read back.
-/
import Mathlib.Logic.Function.Basic

namespace ByteStore

/-- `mem` with the byte at `a` replaced. -/
def update (mem : Nat → BitVec 8) (a : Nat) (b : BitVec 8) : Nat → BitVec 8 :=
  fun x => if x = a then b else mem x

/-- The `n` bytes from `a` on as one number, most significant byte first. -/
def load : (n : Nat) → (Nat → BitVec 8) → Nat → BitVec (8 * n)
  | 0, _, _ => 0
  | n + 1, mem, a => load n mem a ++ mem (a + n)

/-- `mem` with the `n` bytes from `a` on replaced by those of `v`. -/
def store : (n : Nat) → (Nat → BitVec 8) → Nat → BitVec (8 * n) → Nat → BitVec 8
  | 0, mem, _, _ => mem
  | n + 1, mem, a, v =>
    update (store n mem a ((v >>> 8).setWidth (8 * n))) (a + n) (v.setWidth 8)

theorem update_self (mem : Nat → BitVec 8) (a : Nat) (b : BitVec 8) : update mem a b a = b :=
  if_pos rfl

theorem update_ne (mem : Nat → BitVec 8) {a x : Nat} (b : BitVec 8) (h : x ≠ a) :
    update mem a b x = mem x :=
  if_neg h

/-- **Loads are local**: two memories with the same bytes there load the same value. -/
theorem load_congr {n : Nat} {mem mem' : Nat → BitVec 8} {a : Nat}
    (h : ∀ i < n, mem (a + i) = mem' (a + i)) : load n mem a = load n mem' a := by
  induction n with
  | zero => rfl
  | succ n ih =>
    unfold load
    rw [ih (fun i hi => h i (by omega)), h n (by omega)]

/-- **Stores are local**: a byte outside the stored range is unchanged. -/
theorem store_of_outside {n : Nat} {mem : Nat → BitVec 8} {a x : Nat} (v : BitVec (8 * n))
    (h : x < a ∨ a + n ≤ x) : store n mem a v x = mem x := by
  induction n with
  | zero => rfl
  | succ n ih =>
    unfold store
    rw [update_ne _ _ (by omega), ih _ (by omega)]

/-- What is at a place after a store depends on what was there before, and on what is stored. -/
theorem store_congr {n : Nat} {mem mem' : Nat → BitVec 8} {a x : Nat} (v : BitVec (8 * n))
    (h : mem x = mem' x) : store n mem a v x = store n mem' a v x := by
  induction n with
  | zero => exact h
  | succ n ih =>
    unfold store update
    split
    · rfl
    · exact ih _

theorem split_last (n : Nat) (v : BitVec (8 * (n + 1))) :
    (v >>> 8).setWidth (8 * n) ++ v.setWidth 8 = (v : BitVec (8 * n + 8)) := by
  apply BitVec.eq_of_getLsbD_eq
  intro i hi
  rw [BitVec.getLsbD_append]
  by_cases h8 : i < 8
  · simp [h8]
  · rw [if_neg h8]
    simp [show i - 8 < 8 * n by omega, show 8 + (i - 8) = i by omega]

/-- **A stored value is loaded again.** -/
theorem load_store (n : Nat) (mem : Nat → BitVec 8) (a : Nat) (v : BitVec (8 * n)) :
    load n (store n mem a v) a = v := by
  induction n with
  | zero => exact (BitVec.eq_nil v).symm
  | succ n ih =>
    unfold load store
    rw [update_self]
    have hlow : load n (update (store n mem a ((v >>> 8).setWidth (8 * n))) (a + n)
        (v.setWidth 8)) a = (v >>> 8).setWidth (8 * n) := by
      rw [load_congr (fun i hi => update_ne _ _ (by omega)), ih]
    rw [hlow]
    exact split_last n v

/-- **Each byte of a stored value.** -/
theorem store_byte {n i : Nat} (mem : Nat → BitVec 8) (a : Nat) (v : BitVec (8 * n)) (hi : i < n) :
    store n mem a v (a + i) = (v >>> (8 * (n - 1 - i))).setWidth 8 := by
  induction n with
  | zero => omega
  | succ n ih =>
    unfold store
    by_cases hin : i = n
    · subst hin
      rw [update_self, Nat.add_sub_cancel, Nat.sub_self]
      simp
    · rw [update_ne _ _ (by omega), ih _ (by omega)]
      apply BitVec.eq_of_getLsbD_eq
      intro k hk
      have hsum : 8 + (8 * (n - 1 - i) + k) = 8 * (n + 1 - 1 - i) + k := by omega
      simp [hsum, show 8 * (n - 1 - i) + k < 8 * n by omega]

/-- A load beside the stored range does not see the store. -/
theorem load_store_of_disjoint {n m : Nat} {mem : Nat → BitVec 8} {a b : Nat} (v : BitVec (8 * m))
    (h : a + n ≤ b ∨ b + m ≤ a) : load n (store m mem b v) a = load n mem a := by
  apply load_congr
  intro i hi
  exact store_of_outside v (by omega)

/-! ## Scattered values -/

/-- The first `k` values of `n` bytes, each stored at its place. -/
def scatter (n : Nat) (place : Nat → Nat) (value : Nat → BitVec (8 * n)) :
    Nat → (Nat → BitVec 8) → Nat → BitVec 8
  | 0, mem => mem
  | k + 1, mem => store n (scatter n place value k mem) (place k) (value k)

section scatter
variable {n k : Nat} {place : Nat → Nat} {value : Nat → BitVec (8 * n)} {mem : Nat → BitVec 8}

theorem scatter_of_outside {x : Nat} (h : ∀ i < k, x < place i ∨ place i + n ≤ x) :
    scatter n place value k mem x = mem x := by
  induction k with
  | zero => rfl
  | succ k ih =>
    rw [scatter, store_of_outside _ (h k (by omega)), ih fun i hi => h i (by omega)]

/-- **Scattered values are read back**, where a place is used again for the same value only and
    other places lie apart. -/
theorem load_scatter (hsame : ∀ a < k, ∀ b < k, place a = place b → value a = value b)
    (hapart : ∀ a < k, ∀ b < k, place a ≠ place b →
      place a + n ≤ place b ∨ place b + n ≤ place a) {i : Nat} (hi : i < k) :
    load n (scatter n place value k mem) (place i) = value i := by
  induction k with
  | zero => omega
  | succ k ih =>
    rw [scatter]
    by_cases heq : place i = place k
    · rw [heq, load_store, hsame i hi k (by omega) heq]
    · have hik : i ≠ k := fun h => heq (congrArg place h)
      rw [load_store_of_disjoint _ (hapart i hi k (by omega) heq)]
      exact ih (fun a ha b hb => hsame a (by omega) b (by omega))
        (fun a ha b hb => hapart a (by omega) b (by omega)) (by omega)

end scatter

/-! ## Runs of bytes -/

/-- `mem` with the bytes from `a` on replaced by `bs`. -/
def storeBytes (mem : Nat → BitVec 8) (a : Nat) (bs : List (BitVec 8)) : Nat → BitVec 8 :=
  fun x => if a ≤ x then (bs[x - a]?).getD (mem x) else mem x

theorem storeBytes_of_outside {mem : Nat → BitVec 8} {a x : Nat} {bs : List (BitVec 8)}
    (h : x < a ∨ a + bs.length ≤ x) : storeBytes mem a bs x = mem x := by
  rw [storeBytes]
  split
  · rw [List.getElem?_eq_none (by omega)]
    rfl
  · rfl

/-- The bytes there, those that are not stored being as before. -/
theorem storeBytes_add (mem : Nat → BitVec 8) (a : Nat) (bs : List (BitVec 8)) (i : Nat) :
    storeBytes mem a bs (a + i) = (bs[i]?).getD (mem (a + i)) := by
  rw [storeBytes, if_pos (Nat.le_add_right a i), Nat.add_sub_cancel_left]

/-- The other byte of a pair. -/
def mate (x : Nat) : Nat := if x % 2 = 0 then x + 1 else x - 1

theorem mate_mate (x : Nat) : mate (mate x) = x := by
  rw [mate, mate]
  split <;> split <;> omega

theorem mate_add {a : Nat} (ha : a % 2 = 0) (i : Nat) : mate (a + i) = a + mate i := by
  rw [mate, mate]
  split <;> split <;> omega

/-- The `n` bytes from `a` on swapped in pairs. -/
def swapPairs (mem : Nat → BitVec 8) (a n : Nat) : Nat → BitVec 8 :=
  fun x => if a ≤ x ∧ x < a + n then mem (mate x) else mem x

theorem swapPairs_of_outside {mem : Nat → BitVec 8} {a n x : Nat} (h : x < a ∨ a + n ≤ x) :
    swapPairs mem a n x = mem x := if_neg (by omega)

theorem swapPairs_add {mem : Nat → BitVec 8} {a n i : Nat} (ha : a % 2 = 0) (hi : i < n) :
    swapPairs mem a n (a + i) = mem (a + mate i) := by
  rw [swapPairs, if_pos (by omega), mate_add ha]

end ByteStore

namespace BlockCopy

variable {ι κ α β : Type} [DecidableEq κ]

/-- The target behind `n` cells. -/
def copyBlock (conv : α → β) (src : ι → α) : Nat → (Nat → ι) → (Nat → κ) → (κ → β) → κ → β
  | 0, _, _, dst => dst
  | n + 1, p, q, dst =>
    copyBlock conv src n (fun i => p (i + 1)) (fun i => q (i + 1))
      (Function.update dst (q 0) (conv (src (p 0))))

variable {conv : α → β} {src : ι → α} {n : Nat} {p : Nat → ι} {q : Nat → κ} {dst : κ → β}

theorem copyBlock_succ : copyBlock conv src (n + 1) p q dst =
    copyBlock conv src n (fun i => p (i + 1)) (fun i => q (i + 1))
      (Function.update dst (q 0) (conv (src (p 0)))) := rfl

theorem copyBlock_of_notMem {x : κ} (h : ∀ i < n, q i ≠ x) :
    copyBlock conv src n p q dst x = dst x := by
  induction n generalizing p q dst with
  | zero => rfl
  | succ n ih =>
    rw [copyBlock_succ, ih fun i hi => h (i + 1) (by omega),
      Function.update_of_ne (h 0 (by omega)).symm]

/-- A cell the walk reaches once holds what was moved there. -/
theorem copyBlock_of_injective (hq : ∀ i < n, ∀ j < n, q i = q j → i = j) {i : Nat} (hi : i < n) :
    copyBlock conv src n p q dst (q i) = conv (src (p i)) := by
  induction n generalizing p q dst i with
  | zero => omega
  | succ n ih =>
    rw [copyBlock_succ]
    have hrest : ∀ i < n, ∀ j < n, q (i + 1) = q (j + 1) → i = j := fun i hi j hj heq =>
      Nat.succ.inj (hq (i + 1) (by omega) (j + 1) (by omega) heq)
    cases i with
    | zero =>
      rw [copyBlock_of_notMem fun j hj heq => absurd (hq (j + 1) (by omega) 0 hi heq) (by omega),
        Function.update_self]
    | succ i => exact ih (p := fun i => p (i + 1)) hrest (by omega)

/-- Nothing changes where every cell holds already what is moved there. -/
theorem copyBlock_same (h : ∀ i < n, conv (src (p i)) = dst (q i)) :
    copyBlock conv src n p q dst = dst := by
  induction n generalizing p q dst with
  | zero => rfl
  | succ n ih =>
    rw [copyBlock_succ, h 0 (by omega), Function.update_eq_self]
    exact ih fun i hi => h (i + 1) (by omega)

end BlockCopy
