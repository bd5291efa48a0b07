/-
  Subject:   Parcels between the I/O memory and the files of the peripherals of an IOP.

  A peripheral moves parcels one after the other, with an address register that wraps at the end of
  the memory; in the file a parcel is its two bytes, the upper one first.

  * `store`, `load` -- parcels into the memory and out of it,
  * `bytesOf`, `parcelsOf` -- parcels as bytes and back,
  * `readParcels_ok`, `writeParcels_ok` -- what they do to memory and file.
-/
import CraySim.IopCpu
import CraySim.Lib.SectorArray

namespace CraySim

/-! ## 1. Memory -/

namespace IoMemory

/-- `WriteWord(aAddr++, …)` for one parcel after the other. -/
def store (mem : IoMemory) (aAddr : IopInt) : List IopInt → IoMemory
  | [] => mem
  | w :: ws => store (Function.update mem aAddr w) (aAddr + 1) ws

/-- `ReadWord(aAddr++)`, `n` times. -/
def load (mem : IoMemory) (aAddr : IopInt) : Nat → List IopInt
  | 0 => []
  | n + 1 => mem aAddr :: load mem (aAddr + 1) n

@[simp] theorem length_load (mem : IoMemory) (aAddr : IopInt) (n : Nat) :
    (load mem aAddr n).length = n := by
  induction n generalizing aAddr with
  | zero => rfl
  | succ n ih => rw [load, List.length_cons, ih]

theorem store_append (mem : IoMemory) (aAddr : IopInt) (ws vs : List IopInt) :
    mem.store aAddr (ws ++ vs) =
      (mem.store aAddr ws).store (aAddr + BitVec.ofNat 16 ws.length) vs := by
  induction ws generalizing mem aAddr with
  | nil => simp [store]
  | cons w ws ih =>
    rw [List.cons_append, store, store, ih, List.length_cons, Nat.add_comm ws.length 1, WordField.add_ofNat_add]
    rfl

/-- Parcels that are stored where they were loaded: an address either has what it had there, or is
    none of the addresses of the parcels. -/
theorem store_load (mem old : IoMemory) (aAddr b : IopInt) (n : Nat) :
    mem.store aAddr (old.load aAddr n) b = old b ∨
      mem.store aAddr (old.load aAddr n) b = mem b ∧
        ∀ j < n, b ≠ aAddr + BitVec.ofNat 16 j := by
  induction n generalizing mem aAddr with
  | zero => exact .inr ⟨rfl, fun j hj => absurd hj (Nat.not_lt_zero j)⟩
  | succ n ih =>
    rw [load, store]
    rcases ih (Function.update mem aAddr (old aAddr)) (aAddr + 1) with hold | ⟨hmem, hne⟩
    · exact .inl hold
    · by_cases hb : b = aAddr
      · left
        rw [hmem, hb, Function.update_self]
      · right
        rw [Function.update_of_ne hb] at hmem
        refine ⟨hmem, fun j hj => ?_⟩
        cases j with
        | zero => simpa using hb
        | succ j =>
          have hstep := hne j (by omega)
          rwa [Nat.add_comm j 1, WordField.add_ofNat_add]

theorem load_add (mem : IoMemory) (aAddr : IopInt) (m n : Nat) :
    mem.load aAddr (m + n) = mem.load aAddr m ++ mem.load (aAddr + BitVec.ofNat 16 m) n := by
  induction m generalizing aAddr with
  | zero => simp [load]
  | succ m ih =>
    rw [Nat.add_right_comm, load, load, ih, List.cons_append, Nat.add_comm m 1, WordField.add_ofNat_add]
    rfl

end IoMemory

/-! ## 2. Bytes -/

/-- A parcel in a file: `SwapBytes`, on a machine that stores the lower byte first. -/
def bytesOf (ws : List IopInt) : List (BitVec 8) :=
  ws.flatMap fun w => [w.extractLsb' 8 8, w.extractLsb' 0 8]

/-- And back; a byte that is left over is the upper one of a parcel. -/
def parcelsOf : List (BitVec 8) → List IopInt
  | [] => []
  | [b] => [b ++ (0 : BitVec 8)]
  | b :: c :: bs => (b ++ c) :: parcelsOf bs

@[simp] theorem length_bytesOf (ws : List IopInt) : (bytesOf ws).length = 2 * ws.length := by
  induction ws with
  | nil => rfl
  | cons w ws ih =>
    rw [bytesOf, List.flatMap_cons, List.length_append, ← bytesOf, ih, List.length_cons]
    simp only [List.length_cons, List.length_nil]
    omega

theorem bytesOf_append (ws vs : List IopInt) : bytesOf (ws ++ vs) = bytesOf ws ++ bytesOf vs :=
  List.flatMap_append

/-- Byte `k` of the memory from an address on. -/
def IoMemory.byte (mem : IoMemory) (aAddr : IopInt) (k : Nat) : BitVec 8 :=
  (mem (aAddr + BitVec.ofNat 16 (k / 2))).extractLsb' (if k % 2 = 0 then 8 else 0) 8

/-- Bytes that are stored where they were loaded are there again. -/
theorem IoMemory.byte_store_load (mem old : IoMemory) (aAddr : IopInt) {n k : Nat}
    (hk : k < 2 * n) : (mem.store aAddr (old.load aAddr n)).byte aAddr k = old.byte aAddr k := by
  rcases store_load mem old aAddr (aAddr + BitVec.ofNat 16 (k / 2)) n with hold | ⟨-, hne⟩
  · rw [byte, hold, ← byte]
  · exact absurd rfl (hne (k / 2) (by omega))

theorem getD_bytesOf_load (mem : IoMemory) (aAddr : IopInt) {n k : Nat} (hk : k < 2 * n) :
    (bytesOf (mem.load aAddr n)).getD k 0 = mem.byte aAddr k := by
  induction n generalizing aAddr k with
  | zero => exact absurd hk (Nat.not_lt_zero k)
  | succ n ih =>
    rw [IoMemory.load, bytesOf, List.flatMap_cons, ← bytesOf]
    match k with
    | 0 => simp [IoMemory.byte]
    | 1 => simp [IoMemory.byte]
    | k + 2 =>
      have hnext := ih (aAddr + 1) (k := k) (by omega)
      rw [IoMemory.byte, Nat.add_mod_right, show (k + 2) / 2 = 1 + k / 2 by omega,
        WordField.add_ofNat_add]
      exact hnext

theorem parcelsOf_append {bs : List (BitVec 8)} (h : bs.length % 2 = 0) (cs : List (BitVec 8)) :
    parcelsOf (bs ++ cs) = parcelsOf bs ++ parcelsOf cs := by
  induction bs using parcelsOf.induct with
  | case1 => rfl
  | case2 b => exact absurd h (by simp)
  | case3 b c bs ih =>
    rw [List.length_cons, List.length_cons] at h
    rw [List.cons_append, List.cons_append, parcelsOf, parcelsOf, ih (by omega), List.cons_append]

theorem length_parcelsOf {bs : List (BitVec 8)} (h : bs.length % 2 = 0) :
    (parcelsOf bs).length = bs.length / 2 := by
  induction bs using parcelsOf.induct with
  | case1 => rfl
  | case2 b => exact absurd h (by simp)
  | case3 b c bs ih =>
    rw [List.length_cons, List.length_cons] at h ⊢
    rw [parcelsOf, List.length_cons, ih (by omega)]
    omega

theorem length_parcelsOf_any (bs : List (BitVec 8)) : (parcelsOf bs).length = (bs.length + 1) / 2 := by
  induction bs using parcelsOf.induct with
  | case1 => rfl
  | case2 b => simp [parcelsOf]
  | case3 b c bs ih =>
    rw [parcelsOf, List.length_cons, ih, List.length_cons, List.length_cons]
    omega

/-- **Parcels survive the file.** -/
theorem parcelsOf_bytesOf (ws : List IopInt) : parcelsOf (bytesOf ws) = ws := by
  induction ws with
  | nil => rfl
  | cons w ws ih =>
    have hw : w.extractLsb' 8 8 ++ w.extractLsb' 0 8 = w :=
      BitVec.extractLsb'_append_extractLsb'_eq_extractLsb' (x := w) rfl |>.trans
        (BitVec.extractLsb'_eq_self ..)
    rw [bytesOf, List.flatMap_cons, ← bytesOf]
    show (w.extractLsb' 8 8 ++ w.extractLsb' 0 8) :: parcelsOf (bytesOf ws) = w :: ws
    rw [hw, ih]

theorem parcelsOf_zeros (n : Nat) :
    parcelsOf (List.replicate (2 * n) 0) = List.replicate n 0 := by
  induction n with
  | zero => rfl
  | succ n ih =>
    rw [Nat.mul_succ, List.replicate_succ, List.replicate_succ, parcelsOf, ih]
    rfl

/-! ## 3. Loops -/

/-- The loop of a disk that reads: `n` times `k` parcels, until the file fails. -/
def readParcels (k : Nat) : Nat → FileStream → IopInt → IoMemory → Except Exn (IopInt × IoMemory)
  | 0, _, aAddr, mem => .ok (aAddr, mem)
  | n + 1, file, aAddr, mem =>
    let (data, file) := file.read (2 * k)
    if !file.good then .error .assertion
    else readParcels k n file (aAddr + BitVec.ofNat 16 k) (mem.store aAddr (parcelsOf data))

/-- The loop of a disk that writes. -/
def writeParcels (k : Nat) (mem : IoMemory) :
    Nat → FileStream → IopInt → Except Exn (IopInt × FileStream)
  | 0, file, aAddr => .ok (aAddr, file)
  | n + 1, file, aAddr =>
    let file := file.write (bytesOf (mem.load aAddr k))
    if !file.good then .error .assertion
    else writeParcels k mem n file (aAddr + BitVec.ofNat 16 k)

/-- The loop of a disk that formats: it counts the address on, and writes zeros. -/
def formatParcels : Nat → FileStream → IopInt → Except Exn (IopInt × FileStream) :=
  writeParcels 1 fun _ => 0

variable {image : List (BitVec 8)} {pos k n : Nat}

theorem readParcels_ok (h : pos + 2 * (k * n) ≤ image.length) (aAddr : IopInt) (mem : IoMemory) :
    readParcels k n (FileStream.ready image pos) aAddr mem =
      .ok (aAddr + BitVec.ofNat 16 (k * n),
        mem.store aAddr (parcelsOf (SectorArray.block image pos (2 * (k * n))))) := by
  induction n generalizing pos aAddr mem with
  | zero => simp [readParcels, SectorArray.block, parcelsOf, IoMemory.store]
  | succ n ih =>
    rw [Nat.mul_succ] at h
    have hread : (FileStream.ready image pos).read (2 * k) = _ :=
      FileStream.read_ready (by omega)
    have hlen : (SectorArray.block image pos (2 * k)).length % 2 = 0 := by
      rw [SectorArray.length_block]
      omega
    have hsum : 2 * (k * (n + 1)) = 2 * k + 2 * (k * n) := by rw [Nat.mul_succ]; omega
    have hcnt : (parcelsOf (SectorArray.block image pos (2 * k))).length = k := by
      rw [length_parcelsOf hlen, SectorArray.length_block]
      omega
    rw [readParcels, hread]
    simp only [FileStream.good_ready, Bool.not_true, Bool.false_eq_true, if_false]
    rw [ih (by omega), SectorArray.window_eq_block (by omega), hsum,
      SectorArray.block_add, parcelsOf_append hlen, IoMemory.store_append, hcnt,
      show k * (n + 1) = k + k * n by rw [Nat.mul_succ, Nat.add_comm], WordField.add_ofNat_add]

/-- A read that reaches behind the end of the file fails. -/
theorem readParcels_short (hk : 0 < k) (hn : 0 < n) (h : image.length < pos + 2 * (k * n))
    (aAddr : IopInt) (mem : IoMemory) :
    readParcels k n (FileStream.ready image pos) aAddr mem = .error .assertion := by
  induction n generalizing pos aAddr mem with
  | zero => exact absurd hn (Nat.lt_irrefl 0)
  | succ n ih =>
    rw [Nat.mul_succ] at h
    rw [readParcels]
    by_cases hfits : pos + 2 * k ≤ image.length
    · have hread : (FileStream.ready image pos).read (2 * k) = _ := FileStream.read_ready hfits
      rw [hread]
      simp only [FileStream.good_ready, Bool.not_true, Bool.false_eq_true, if_false]
      have hleft : 0 < n := by
        rcases Nat.eq_zero_or_pos n with rfl | hpos
        · omega
        · exact hpos
      exact ih hleft (by omega) _ _
    · have hshort : ((FileStream.ready image pos).read (2 * k)).2.good = false :=
        FileStream.good_read_short (by omega) (by omega)
      generalize (FileStream.ready image pos).read (2 * k) = r at hshort
      simp only [hshort, Bool.not_false, if_true]

theorem writeParcels_ok (k : Nat) (mem : IoMemory) (image : List (BitVec 8)) (pos n : Nat)
    (aAddr : IopInt) :
    writeParcels k mem n (FileStream.ready image pos) aAddr =
      .ok (aAddr + BitVec.ofNat 16 (k * n),
        FileStream.ready (FileStream.putBytes image pos (bytesOf (mem.load aAddr (k * n))))
          (pos + 2 * (k * n))) := by
  induction n generalizing image pos aAddr with
  | zero => simp [writeParcels, bytesOf, IoMemory.load, FileStream.putBytes]
  | succ n ih =>
    have hlen : (bytesOf (mem.load aAddr k)).length = 2 * k := by
      rw [length_bytesOf, IoMemory.length_load]
    have happend := FileStream.putBytes_append image pos (bytesOf (mem.load aAddr k))
      (bytesOf (mem.load (aAddr + BitVec.ofNat 16 k) (k * n)))
    rw [hlen, ← bytesOf_append, ← IoMemory.load_add] at happend
    rw [writeParcels, FileStream.write_ready_any, hlen]
    simp only [FileStream.good_ready, Bool.not_true, Bool.false_eq_true, if_false]
    rw [ih, happend,
      show k * (n + 1) = k + k * n by rw [Nat.mul_succ, Nat.add_comm], WordField.add_ofNat_add,
      show pos + 2 * k + 2 * (k * n) = pos + 2 * (k + k * n) by omega]

theorem bytesOf_load_zero (aAddr : IopInt) (n : Nat) :
    bytesOf (IoMemory.load (fun _ => 0) aAddr n) = List.replicate (2 * n) 0 := by
  induction n generalizing aAddr with
  | zero => rfl
  | succ n ih =>
    rw [IoMemory.load, bytesOf, List.flatMap_cons, ← bytesOf, ih, Nat.mul_succ, Nat.add_comm,
      List.replicate_add]
    rfl

theorem formatParcels_ok (image : List (BitVec 8)) (pos n : Nat) (aAddr : IopInt) :
    formatParcels n (FileStream.ready image pos) aAddr =
      .ok (aAddr + BitVec.ofNat 16 n,
        FileStream.ready (FileStream.putBytes image pos (List.replicate (2 * n) 0)) (pos + 2 * n)) := by
  rw [formatParcels, writeParcels_ok, Nat.one_mul, bytesOf_load_zero]

end CraySim
