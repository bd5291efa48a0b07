/-
  Subject:   An array of sectors, and a file that holds one.

  A file that is too short for a sector holds zeros in its place, so an empty file holds the blank
  array.

  * `SectorArray` -- sectors by number, each a list of bytes,
  * `blank`, `get`, `put` -- zeros, the bytes of some sectors in a row, and new bytes over them,
  * `get_put`, `put_outside` -- what is put is got, and nothing else changes,
  * `block`, `Holds` -- bytes of a file, and a file that holds an array,
  * `Holds.put`, `Holds.get` -- writing to the file is putting, reading it is getting.
-/
import CraySim.Lib.FileStream
import Mathlib.Data.List.Basic
import Mathlib.Data.List.GetD

open FileStream

/-- Sectors by number. -/
def SectorArray := Nat → List (BitVec 8)

namespace SectorArray

/-! ## 1. The array -/

/-- A number that is cut in two parts has one way to be. -/
theorem mul_add_inj {n a b a' b' : Nat} (hb : b < n) (hb' : b' < n)
    (h : a * n + b = a' * n + b') : a = a' ∧ b = b' := by
  have hpos : 0 < n := by omega
  have hdiv := congrArg (· / n) h
  have hmod := congrArg (· % n) h
  simp only [Nat.mul_comm _ n, Nat.mul_add_div hpos, Nat.div_eq_of_lt hb, Nat.div_eq_of_lt hb',
    Nat.add_zero] at hdiv
  simp only [Nat.mul_comm _ n, Nat.mul_add_mod, Nat.mod_eq_of_lt hb, Nat.mod_eq_of_lt hb'] at hmod
  exact ⟨hdiv, hmod⟩

def blank (size : Nat) : SectorArray := fun _ => List.replicate size 0

/-- The bytes of `cnt` sectors. -/
def get (d : SectorArray) (first cnt : Nat) : List (BitVec 8) :=
  (List.range cnt).flatMap fun k => d (first + k)

/-- The part of `data` that goes to a sector, where `data` starts with sector `first`. -/
def chunk (size first : Nat) (data : List (BitVec 8)) (i : Nat) : List (BitVec 8) :=
  if first ≤ i then (data.drop (size * (i - first))).take size else []

/-- The array with `data` put over the sectors from `first` on; a sector `data` does not fill keeps
    its other bytes. -/
def put (d : SectorArray) (size first : Nat) (data : List (BitVec 8)) : SectorArray := fun i =>
  chunk size first data i ++ (d i).drop (chunk size first data i).length

/-- Every sector has its size. -/
def Uniform (size : Nat) (d : SectorArray) : Prop := ∀ i, (d i).length = size

variable {d : SectorArray} {size first cnt : Nat} {data : List (BitVec 8)}

theorem length_chunk (size first : Nat) (data : List (BitVec 8)) (i : Nat) :
    (chunk size first data i).length =
      if first ≤ i then min size (data.length - size * (i - first)) else 0 := by
  rw [chunk]
  split <;> simp

theorem uniform_blank (size : Nat) : Uniform size (blank size) := fun _ => List.length_replicate

theorem Uniform.put (h : Uniform size d) (first : Nat) (data : List (BitVec 8)) :
    Uniform size (d.put size first data) := by
  intro i
  have hlen := length_chunk size first data i
  rw [SectorArray.put, List.length_append, List.length_drop, h i]
  split at hlen <;> omega

theorem put_outside {i : Nat} (h : i < first ∨ size * first + data.length ≤ size * i) :
    d.put size first data i = d i := by
  have hlen : (chunk size first data i).length = 0 := by
    rw [length_chunk]
    rcases h with h | h
    · rw [if_neg (by omega)]
    · by_cases hi : first ≤ i
      · obtain ⟨j, rfl⟩ := Nat.exists_eq_add_of_le hi
        rw [Nat.mul_add] at h
        rw [if_pos hi, Nat.add_sub_cancel_left]
        omega
      · rw [if_neg hi]
  rw [put, List.eq_nil_of_length_eq_zero hlen]
  rfl

/-- A sector `data` fills has nothing else. -/
theorem put_inside (h : Uniform size d) (hdata : data.length = size * cnt) {k : Nat} (hk : k < cnt) :
    d.put size first data (first + k) = (data.drop (size * k)).take size := by
  have hroom : size * k + size ≤ data.length := by
    rw [hdata, ← Nat.mul_succ]
    exact Nat.mul_le_mul_left size hk
  have hchunk : chunk size first data (first + k) = (data.drop (size * k)).take size := by
    rw [chunk, if_pos (Nat.le_add_right _ _), Nat.add_sub_cancel_left]
  have hlen : ((data.drop (size * k)).take size).length = size := by
    rw [List.length_take, List.length_drop]
    omega
  have hrest : (d (first + k)).drop ((data.drop (size * k)).take size).length = [] :=
    List.drop_eq_nil_of_le (by rw [hlen, h])
  rw [put, hchunk, hrest, List.append_nil]

theorem get_succ (d : SectorArray) (first cnt : Nat) :
    d.get first (cnt + 1) = d.get first cnt ++ d (first + cnt) := by
  rw [get, get, List.range_succ, List.flatMap_append]
  simp

/-- **What is put is got.** -/
theorem get_put (h : Uniform size d) (hdata : data.length = size * cnt) :
    (d.put size first data).get first cnt = data := by
  have hpart : ∀ n ≤ cnt, (d.put size first data).get first n = data.take (size * n) := by
    intro n hn
    induction n with
    | zero => rw [Nat.mul_zero, List.take_zero]; rfl
    | succ n ih =>
      rw [get_succ, ih (by omega), put_inside h hdata (by omega), Nat.mul_succ, List.take_add]
  rw [hpart cnt (Nat.le_refl _), ← hdata, List.take_length]

theorem get_put_outside {first' cnt' : Nat} (hdata : data.length ≤ size * cnt')
    (h : first + cnt ≤ first' ∨ first' + cnt' ≤ first) :
    (d.put size first' data).get first cnt = d.get first cnt := by
  rw [get, get]
  refine List.flatMap_congr fun k hk => put_outside ?_
  rw [List.mem_range] at hk
  rcases h with h | h
  · exact .inl (by omega)
  · right
    calc size * first' + data.length ≤ size * first' + size * cnt' := by omega
      _ = size * (first' + cnt') := (Nat.mul_add ..).symm
      _ ≤ size * (first + k) := Nat.mul_le_mul_left size (by omega)

/-! ## 2. The file -/

/-- `n` bytes of a file, with zeros behind its end. -/
def block (file : List (BitVec 8)) (pos n : Nat) : List (BitVec 8) :=
  (List.range n).map fun k => file.getD (pos + k) 0

/-- The file holds the array. -/
def Holds (size : Nat) (file : List (BitVec 8)) (d : SectorArray) : Prop :=
  ∀ i, block file (size * i) size = d i

variable {file : List (BitVec 8)}

theorem Holds.uniform (h : Holds size file d) : Uniform size d := fun i => by
  rw [← h i, block, List.length_map, List.length_range]

@[simp] theorem length_block (file : List (BitVec 8)) (pos n : Nat) :
    (block file pos n).length = n := by
  rw [block, List.length_map, List.length_range]

theorem getD_block (file : List (BitVec 8)) (pos : Nat) {n k : Nat} (hk : k < n) :
    (block file pos n).getD k 0 = file.getD (pos + k) 0 := by
  rw [List.getD_eq_getElem?_getD, block, List.getElem?_map, List.getElem?_range hk]
  rfl

theorem block_add (file : List (BitVec 8)) (pos m n : Nat) :
    block file pos (m + n) = block file pos m ++ block file (pos + m) n := by
  rw [block, block, block, List.range_add, List.map_append, List.map_map]
  congr 1
  exact List.map_congr_left fun k _ => by rw [Function.comp, Nat.add_assoc]

/-- Where the file does not end, its bytes are the bytes of the array. -/
theorem window_eq_block {pos n : Nat} (h : pos + n ≤ file.length) :
    ByteFile.window file pos n = block file pos n := by
  have hlen : (ByteFile.window file pos n).length = n := by
    rw [ByteFile.length_window]
    omega
  refine List.ext_getElem (by rw [hlen, length_block]) fun k hk hk' => ?_
  have hkn : k < n := by rwa [hlen] at hk
  rw [← List.getD_eq_getElem _ 0 hk, ← List.getD_eq_getElem _ 0 hk', getD_block _ _ hkn,
    ByteFile.window, List.getD_eq_getElem?_getD, List.getElem?_take, if_pos hkn,
    List.getElem?_drop, ← List.getD_eq_getElem?_getD]

theorem take_block (file : List (BitVec 8)) (pos : Nat) {m n : Nat} (h : m ≤ n) :
    (block file pos n).take m = block file pos m := by
  obtain ⟨k, rfl⟩ := Nat.exists_eq_add_of_le h
  rw [block_add, List.take_left' (length_block _ _ _)]

/-- **Reading the file is getting.** -/
theorem Holds.get (h : Holds size file d) (first cnt : Nat) :
    block file (size * first) (size * cnt) = d.get first cnt := by
  induction cnt with
  | zero => rfl
  | succ cnt ih => rw [get_succ, Nat.mul_succ, block_add, ih, ← Nat.mul_add, h]

/-- A file of zeros, whatever its length, has zeros everywhere. -/
theorem block_zeros (n pos m : Nat) :
    block (List.replicate n 0) pos m = List.replicate m 0 := by
  refine List.eq_replicate_of_mem ?_ |>.trans (by rw [length_block])
  intro b hb
  obtain ⟨k, -, rfl⟩ := List.mem_map.mp hb
  rw [List.getD_eq_getElem?_getD, List.getElem?_replicate]
  split <;> rfl

theorem holds_blank (n : Nat) : Holds size (List.replicate n 0) (blank size) := fun i =>
  block_zeros n (size * i) size

theorem getD_putBytes (file : List (BitVec 8)) (pos : Nat) (bs : List (BitVec 8)) (i : Nat) :
    (putBytes file pos bs).getD i 0 =
      if pos ≤ i ∧ i < pos + bs.length then bs.getD (i - pos) 0 else file.getD i 0 := by
  simp only [List.getD_eq_getElem?_getD]
  by_cases hin : pos ≤ i ∧ i < pos + bs.length
  · obtain ⟨k, rfl⟩ := Nat.exists_eq_add_of_le hin.1
    rw [if_pos hin, getElem?_putBytes_inside (by omega), Nat.add_sub_cancel_left]
  rw [if_neg hin]
  by_cases hfile : i < file.length
  · have hsome := List.getElem?_eq_getElem hfile
    rw [getElem?_putBytes_outside hsome (by omega), hsome]
  -- behind the old end there are zeros in front of the new bytes, and nothing behind them
  · rw [List.getElem?_eq_none (by omega : file.length ≤ i), Option.getD_none]
    by_cases hnil : bs = []
    · rw [putBytes, if_pos hnil, List.getElem?_eq_none (by omega), Option.getD_none]
    have hpos : 0 < bs.length := List.length_pos_iff.mpr hnil
    rw [putBytes, if_neg hnil, List.append_assoc, List.append_assoc]
    by_cases hgap : i < pos
    · rw [List.getElem?_append_right (by rw [List.length_take]; omega),
        List.getElem?_append_left (by rw [List.length_take, List.length_replicate]; omega),
        List.getElem?_replicate]
      split <;> rfl
    · rw [List.getElem?_eq_none, Option.getD_none]
      simp only [List.length_append, List.length_take, List.length_replicate, List.length_drop]
      omega

theorem length_putBytes (file : List (BitVec 8)) (pos : Nat) {bs : List (BitVec 8)} (h : bs ≠ []) :
    (putBytes file pos bs).length = max file.length (pos + bs.length) := by
  rw [putBytes, if_neg h]
  simp only [List.length_append, List.length_take, List.length_replicate, List.length_drop]
  omega

theorem block_putBytes (file : List (BitVec 8)) (pos : Nat) (bs : List (BitVec 8)) :
    block (putBytes file pos bs) pos bs.length = bs := by
  refine List.ext_getElem (length_block _ _ _) fun k hk hk' => ?_
  rw [← List.getD_eq_getElem _ 0 hk, ← List.getD_eq_getElem _ 0 hk', getD_block _ _ hk',
    getD_putBytes, if_pos (by omega), Nat.add_sub_cancel_left]

theorem block_putBytes_outside {pos p n : Nat} {bs : List (BitVec 8)}
    (h : p + n ≤ pos ∨ pos + bs.length ≤ p) :
    block (putBytes file pos bs) p n = block file p n := by
  refine List.ext_getElem (by rw [length_block, length_block]) fun k hk hk' => ?_
  have hkn : k < n := by rwa [length_block] at hk'
  rw [← List.getD_eq_getElem _ 0 hk, ← List.getD_eq_getElem _ 0 hk', getD_block _ _ hkn,
    getD_block _ _ hkn, getD_putBytes, if_neg (by omega)]

/-- **Writing to the file is putting.** -/
theorem Holds.put (h : Holds size file d) (first : Nat) (data : List (BitVec 8)) :
    Holds size (putBytes file (size * first) data) (d.put size first data) := by
  intro i
  have huniform := (h.uniform.put first data) i
  have hchunk := length_chunk size first data i
  refine List.ext_getElem (by rw [length_block, huniform]) fun k hk hk' => ?_
  have hsize : k < size := by rwa [length_block] at hk
  have hold : file.getD (size * i + k) 0 = (d i).getD k 0 := by
    rw [← h i, getD_block _ _ hsize]
  rw [← List.getD_eq_getElem _ 0 hk, ← List.getD_eq_getElem _ 0 hk', getD_block _ _ hsize,
    getD_putBytes, hold, SectorArray.put]
  by_cases hi : first ≤ i
  · obtain ⟨j, rfl⟩ := Nat.exists_eq_add_of_le hi
    rw [if_pos hi, Nat.add_sub_cancel_left] at hchunk
    have hoff : size * (first + j) + k - size * first = size * j + k := by
      rw [Nat.mul_add]
      omega
    rw [hoff]
    by_cases hk'' : k < (chunk size first data (first + j)).length
    · rw [if_pos (by rw [Nat.mul_add]; omega)]
      simp only [List.getD_eq_getElem?_getD]
      rw [List.getElem?_append_left hk'', chunk, if_pos hi, Nat.add_sub_cancel_left,
        List.getElem?_take, if_pos hsize, List.getElem?_drop]
    · rw [if_neg (by rw [Nat.mul_add]; omega)]
      simp only [List.getD_eq_getElem?_getD]
      rw [List.getElem?_append_right (by omega), List.getElem?_drop,
        show (chunk size first data (first + j)).length +
          (k - (chunk size first data (first + j)).length) = k by omega]
  · rw [if_neg hi] at hchunk
    have hbefore : size * i + size ≤ size * first := by
      rw [← Nat.mul_succ]
      exact Nat.mul_le_mul_left size (by omega)
    rw [if_neg (by omega), List.eq_nil_of_length_eq_zero hchunk]
    rfl

end SectorArray
