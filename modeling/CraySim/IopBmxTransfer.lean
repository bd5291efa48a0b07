/-
  Subject:   The bytes that a command of a block multiplexer channel moves, and what it counts.

  A write takes groups of four parcels from the memory until the byte counter is zero; a read puts
  groups of four parcels there until the data ends. Both count the bytes down; a read counts the
  address up by the parcels of its groups, a write by the bytes over eight.

  * `gather`, `gather_eq` -- the loop over the groups of a write: the parcels in a row,
  * `Transfers`, `Accounts` -- the commands, and what they are to count,
  * `channelCommand_accounts` -- what a command counts, and that a record comes back.
-/
import CraySim.IopBmx
import CraySim.PokedTapSpacing
import CraySim.Lib.WordField

namespace CraySim

open Framed Tape TapFile

namespace IopChannelBmx

/-! ## 1. The loops over the groups -/

/-- `(LocalMemoryAdddress & 0xfffc) | Parcel`. -/
def parcelAddress (aAddr : IopInt) (aParcel : Nat) : IopInt :=
  aAddr &&& 0xfffc ||| BitVec.ofNat 16 aParcel

/-- The loop of a write over `k` parcels of a group: its bytes, and the byte counter behind it. -/
def gatherGroup (mem : IoMemory) (aAddr : IopInt) : Nat → Nat → Nat → List (BitVec 8) × Nat
  | 0, _, n => ([], n)
  | k + 1, aParcel, n =>
    let word := mem (parcelAddress aAddr aParcel)
    if n - 1 = 0 then ([word.extractLsb' 8 8], 0)
    else if n - 2 = 0 then ([word.extractLsb' 8 8, word.extractLsb' 0 8], 0)
    else
      let rest := gatherGroup mem aAddr k (aParcel + 1) (n - 2)
      (word.extractLsb' 8 8 :: word.extractLsb' 0 8 :: rest.1, rest.2)

/-- A parcel of a group is as many parcels behind its first one. -/
theorem parcelAddress_eq (aAddr : IopInt) {p : Nat} (hp : p < 4) :
    parcelAddress aAddr p = (aAddr &&& 0xfffc) + BitVec.ofNat 16 p := by
  have hlow : (0xfffc : IopInt) &&& BitVec.ofNat 16 p = 0 :=
    (by decide : ∀ p < 4, (0xfffc : IopInt) &&& BitVec.ofNat 16 p = 0) p hp
  refine (BitVec.add_eq_or_of_and_eq_zero _ _ ?_).symm
  rw [BitVec.and_assoc, hlow]
  exact BitVec.and_zero

theorem group_next (aAddr : IopInt) : (aAddr + 4) &&& 0xfffc = (aAddr &&& 0xfffc) + 4 := by
  have hclear : ∀ x : IopInt, (x &&& 0xfffc).toNat = x.toNat / 4 * 4 := fun x =>
    WordField.toNat_and_not_mask (n := 2) x (by decide)
  have hlt := aAddr.isLt
  rw [← BitVec.toNat_inj, hclear, BitVec.toNat_add, BitVec.toNat_add, hclear,
    show (4 : IopInt).toNat = 4 from rfl]
  omega

section groups
variable (mem : IoMemory) (aAddr : IopInt)

theorem gatherGroup_eq {k p n : Nat} (hk : p + k ≤ 4) (hn : 0 < n) :
    gatherGroup mem aAddr k p n =
      ((bytesOf (mem.load ((aAddr &&& 0xfffc) + BitVec.ofNat 16 p) k)).take n, n - 2 * k) := by
  induction k generalizing p n with
  | zero => simp [gatherGroup, IoMemory.load, bytesOf]
  | succ k ih =>
    have hnext : (aAddr &&& 0xfffc) + BitVec.ofNat 16 (p + 1) =
        (aAddr &&& 0xfffc) + BitVec.ofNat 16 p + 1 := WordField.add_ofNat_add _ p 1
    rw [gatherGroup, parcelAddress_eq aAddr (by omega), IoMemory.load, bytesOf, List.flatMap_cons,
      ← bytesOf, ← hnext]
    rcases n with _ | _ | _ | n
    · exact absurd hn (Nat.lt_irrefl 0)
    · refine Prod.ext (by simp) ?_
      show 0 = 1 - 2 * (k + 1)
      omega
    · simp
    · rw [if_neg (by omega), if_neg (by omega), ih (by omega) (by omega)]
      refine Prod.ext rfl ?_
      show n + 3 - 2 - 2 * k = n + 3 - 2 * (k + 1)
      omega

theorem gatherGroup_lt {n : Nat} (hn : n ≠ 0) : (gatherGroup mem aAddr 4 0 n).2 < n := by
  rw [gatherGroup_eq mem aAddr (Nat.le_refl 4) (Nat.pos_of_ne_zero hn)]
  show n - 8 < n
  omega

end groups

/-- The loop of a write. -/
def gather (mem : IoMemory) (aAddr : IopInt) (n : Nat) : List (BitVec 8) :=
  if _hn : n = 0 then []
  else
    let group := gatherGroup mem aAddr 4 0 n
    group.1 ++ gather mem (aAddr + 4) group.2
  termination_by n
  decreasing_by exact gatherGroup_lt mem aAddr _hn

/-- The first bytes of a row of parcels do not depend on how long the row is. -/
theorem take_bytesOf_load (mem : IoMemory) (aAddr : IopInt) {n k : Nat} (m : Nat) (h : n ≤ 2 * k) :
    (bytesOf (mem.load aAddr (k + m))).take n = (bytesOf (mem.load aAddr k)).take n := by
  rw [IoMemory.load_add, bytesOf_append, List.take_append_of_le_length]
  rwa [length_bytesOf, IoMemory.length_load]

/-- **The bytes of a write** are those of the parcels in a row, as many as the byte counter says. -/
theorem gather_eq (mem : IoMemory) (aAddr : IopInt) (n : Nat) :
    gather mem aAddr n = (bytesOf (mem.load (aAddr &&& 0xfffc) ((n + 1) / 2))).take n := by
  induction aAddr, n using gather.induct mem with
  | case1 aAddr => rw [gather, dif_pos rfl, List.take_zero]
  | case2 aAddr n hn group ih =>
    have hgroup := gatherGroup_eq mem aAddr (show 0 + 4 ≤ 4 from Nat.le_refl 4)
      (Nat.pos_of_ne_zero hn)
    have hrest : (gatherGroup mem aAddr 4 0 n).2 = n - 8 := by rw [hgroup]
    rw [show group.2 = n - 8 from hrest, group_next] at ih
    rw [gather, dif_neg hn]
    dsimp only
    rw [hrest, ih, hgroup, show (aAddr &&& 0xfffc) + BitVec.ofNat 16 0 = aAddr &&& 0xfffc from
      BitVec.add_zero _]
    by_cases hlast : n ≤ 8
    · rw [Nat.sub_eq_zero_of_le hlast, List.take_zero, List.append_nil]
      obtain ⟨m, hm⟩ := Nat.exists_eq_add_of_le (show (n + 1) / 2 ≤ 4 by omega)
      rw [hm]
      exact take_bytesOf_load mem _ m (by omega)
    · obtain ⟨m, rfl⟩ := Nat.exists_eq_add_of_le (Nat.le_of_not_le hlast)
      have hsplit : (8 + m + 1) / 2 = 4 + (m + 1) / 2 := by omega
      have hfull : (bytesOf (mem.load (aAddr &&& 0xfffc) 4)).length = 8 := by
        rw [length_bytesOf, IoMemory.length_load]
      have hrow : bytesOf (mem.load (aAddr &&& 0xfffc) (4 + (m + 1) / 2)) =
          bytesOf (mem.load (aAddr &&& 0xfffc) 4) ++
            bytesOf (mem.load ((aAddr &&& 0xfffc) + 4) ((m + 1) / 2)) := by
        rw [IoMemory.load_add, bytesOf_append]
        rfl
      rw [hsplit, hrow, List.take_append, hfull, Nat.add_sub_cancel_left]

/-! ## 2. What comes back from the memory -/

theorem getD_parcelsOf (data : List (BitVec 8)) (k : Nat) :
    ((parcelsOf data).getD (k / 2) 0).extractLsb' (if k % 2 = 0 then 8 else 0) 8 =
      data.getD k 0 := by
  induction data using parcelsOf.induct generalizing k with
  | case1 => simp [parcelsOf]
  | case2 b =>
    rcases k with _ | _ | k
    · exact BitVec.extractLsb'_append_eq_left
    · exact BitVec.extractLsb'_append_eq_right
    · simp [parcelsOf]
  | case3 b c data ih =>
    rcases k with _ | _ | k
    · exact BitVec.extractLsb'_append_eq_left
    · exact BitVec.extractLsb'_append_eq_right
    · rw [show (k + 1 + 1) / 2 = k / 2 + 1 by omega, show (k + 1 + 1) % 2 = k % 2 by omega]
      exact ih k

/-- Parcels that are stored behind an address leave it. -/
theorem store_apart (mem : IoMemory) {aAddr b : IopInt} {ws : List IopInt}
    (hb : ∀ i < ws.length, b ≠ aAddr + BitVec.ofNat 16 i) : mem.store aAddr ws b = mem b := by
  induction ws generalizing mem aAddr with
  | nil => rfl
  | cons w ws ih =>
    rw [IoMemory.store, ih]
    · refine Function.update_of_ne ?_ ..
      simpa using hb 0 (Nat.succ_pos _)
    · intro i hi
      have hne := hb (i + 1) (Nat.succ_lt_succ hi)
      rwa [Nat.add_comm i 1, WordField.add_ofNat_add] at hne

/-- A parcel that was stored is there, if the row of parcels does not go around the memory. -/
theorem store_row (mem : IoMemory) (aAddr : IopInt) {ws : List IopInt} (hlen : ws.length ≤ 2 ^ 16)
    {i : Nat} (hi : i < ws.length) :
    mem.store aAddr ws (aAddr + BitVec.ofNat 16 i) = ws.getD i 0 := by
  induction ws generalizing mem aAddr i with
  | nil => exact absurd hi (Nat.not_lt_zero i)
  | cons w ws ih =>
    rw [List.length_cons] at hlen hi
    rw [IoMemory.store]
    cases i with
    | zero =>
      rw [show aAddr + BitVec.ofNat 16 0 = aAddr from BitVec.add_zero _, store_apart]
      · exact Function.update_self ..
      · intro i hi' heq
        have hval := congrArg BitVec.toNat heq
        rw [BitVec.toNat_add, BitVec.toNat_add, BitVec.toNat_ofNat,
          show (1 : IopInt).toNat = 1 from rfl] at hval
        have hlt := aAddr.isLt
        omega
    | succ i =>
      rw [Nat.add_comm i 1, WordField.add_ofNat_add, show BitVec.ofNat 16 1 = (1 : IopInt) from rfl,
        ih _ _ (by omega) (by omega), Nat.add_comm 1 i]
      rfl

theorem byte_store (mem : IoMemory) (aAddr : IopInt) {data : List (BitVec 8)}
    (hlen : data.length < 2 ^ 16) {k : Nat} (hk : k < data.length) :
    (mem.store aAddr (parcelsOf data)).byte aAddr k = data.getD k 0 := by
  have hcount := length_parcelsOf_any data
  rw [IoMemory.byte, store_row mem aAddr (by omega) (by omega), getD_parcelsOf]

/-- The bytes that a write takes from the memory. -/
theorem getD_gather (mem : IoMemory) (aAddr : IopInt) {n k : Nat} (hk : k < n) :
    (gather mem aAddr n).getD k 0 = mem.byte (aAddr &&& 0xfffc) k := by
  have htake := getD_bytesOf_load mem (aAddr &&& 0xfffc) (n := (n + 1) / 2) (k := k) (by omega)
  rw [← htake, gather_eq, List.getD_eq_getElem?_getD, List.getElem?_take_of_lt hk,
    ← List.getD_eq_getElem?_getD]

@[simp] theorem length_gather (mem : IoMemory) (aAddr : IopInt) (n : Nat) :
    (gather mem aAddr n).length = n := by
  rw [gather_eq, List.length_take, length_bytesOf, IoMemory.length_load]
  omega

/-! ## 3. The commands -/

section commands
variable {fuel : Nat} {aData : IopInt} {command : BitVec 8} {s s' : IopChannelBmx} {t : IopBmxTape}
  {h : TapHead}

/-- The commands that write, with the loop of the source. -/
theorem writeCommand_gather : writeCommand fuel command t s = (do
    let data := gather s.ioMemory (localMemoryAddress s) s.mByteCounter.toNat
    let (status, s) ← onDevice t
      (if command &&& 3 = 1 then IopBmxTape.write t.mIsReadOnly data
        else IopBmxTape.control t.mIsReadOnly fuel command) s
    return { s with
      mDeviceStatus := status
      mLocalMemoryAdddress := Function.update s.mLocalMemoryAdddress s.mActiveMemoryAddressIdx
        (localMemoryAddress s + BitVec.ofNat 16 (data.length / 8))
      mByteCounter := s.mByteCounter - BitVec.ofNat 16 data.length }) := by
  rw [writeCommand, gather_eq]

/-- A write moves the bytes of the byte counter, a read what the device returns. -/
inductive Transfers (command : BitVec 8) (t : IopBmxTape) (s : IopChannelBmx) :
    List (BitVec 8) → Prop
  | write (hc : command &&& 3 = 1) :
    Transfers command t s (gather s.ioMemory (localMemoryAddress s) s.mByteCounter.toNat)
  | read {status : BitVec 8} {data : List (BitVec 8)} {image : PokedTapFile}
    (hc : command &&& 3 = 2)
    (hread : IopBmxTape.read s.mByteCounter.toNat t.mTapeImage = (.ok (status, data), image)) :
    Transfers command t s data

/-- A command that moves `n` bytes counts them down, and the address on by groups. -/
structure Accounts (s s' : IopChannelBmx) (n : Nat) : Prop where
  counter : s'.mByteCounter = s.mByteCounter - BitVec.ofNat 16 n
  address : localMemoryAddress s' = localMemoryAddress s + BitVec.ofNat 16 (4 * ((n + 7) / 8))

theorem channelCommand_write (hactive : assertActive s = .ok t)
    (hc : (aData.setWidth 8 : BitVec 8) &&& 3 = 1) :
    channelCommand fuel aData s = writeCommand fuel (aData.setWidth 8) t s := by
  have hbits : ∀ c : BitVec 8, c &&& 3 = 1 → c ≠ 0 ∧ c &&& 1 = 1 := by decide
  obtain ⟨hne, hone⟩ := hbits _ hc
  rw [channelCommand, hactive]
  exact (if_neg hne).trans (if_pos hone)

theorem channelCommand_read (hactive : assertActive s = .ok t)
    (hc : (aData.setWidth 8 : BitVec 8) &&& 3 = 2) :
    channelCommand fuel aData s = readCommand (aData.setWidth 8) t s := by
  have hbits : ∀ c : BitVec 8, c &&& 3 = 2 → c ≠ 0 ∧ ¬ c &&& 1 = 1 := by decide
  obtain ⟨hne, hone⟩ := hbits _ hc
  rw [channelCommand, hactive]
  exact (if_neg hne).trans ((if_neg hone).trans (if_pos (.inl hc)))

/-- The channel with the image of its active device at `image`. -/
def withImage (t : IopBmxTape) (image : PokedTapFile) (s : IopChannelBmx) : IopChannelBmx :=
  { s with mDevices := s.mDevices.set s.mActiveDevice.toNat (some { t with mTapeImage := image }) }

variable {image : PokedTapFile} {data : List (BitVec 8)}

/-- The active device is still there when its image has moved. -/
theorem assertActive_withImage (hactive : assertActive s = .ok t)
    (hdevice : s'.mActiveDevice = s.mActiveDevice)
    (hdevices : s'.mDevices = (withImage t image s).mDevices) :
    assertActive s' = .ok { t with mTapeImage := image } := by
  rw [assertActive, getActiveDevice] at hactive
  by_cases hneg : s.mActiveDevice < 0
  · rw [if_pos hneg] at hactive
    cases hactive
  · rw [if_neg hneg] at hactive
    rcases hget : s.mDevices[s.mActiveDevice.toNat]? with _ | o
    · rw [hget] at hactive
      cases hactive
    · have hlt := (List.getElem?_eq_some_iff.mp hget).1
      rw [assertActive, getActiveDevice, hdevice, if_neg hneg, hdevices, withImage,
        List.getElem?_set_self hlt]
      rfl

/-- A method of the device, and what is done with its result. -/
theorem onDevice_bind_ok {α β : Type} {m : Poked α} {a : α}
    (hm : m t.mTapeImage = (.ok a, image)) (k : α × IopChannelBmx → Except Exn β) :
    (onDevice t m s >>= k) = k (a, withImage t image s) := by
  rw [onDevice, hm]
  rfl

theorem onDevice_bind_error {α β : Type} {m : Poked α} {e : TapExn}
    (hm : m t.mTapeImage = (.error e, image)) (k : α × IopChannelBmx → Except Exn β) :
    (onDevice t m s >>= k) = .error (tapExn e) := by
  rw [onDevice, hm]
  rfl

/-- The channel behind a write: the status, and the counters. -/
def written (status : BitVec 8) (n : Nat) (s : IopChannelBmx) : IopChannelBmx :=
  { s with
    mDeviceStatus := status
    mLocalMemoryAdddress := Function.update s.mLocalMemoryAdddress s.mActiveMemoryAddressIdx
      (localMemoryAddress s + BitVec.ofNat 16 (n / 8))
    mByteCounter := s.mByteCounter - BitVec.ofNat 16 n }

theorem writeCommand_returns (hc : command &&& 3 = 1) {status : BitVec 8}
    (hrun : IopBmxTape.write t.mIsReadOnly
      (gather s.ioMemory (localMemoryAddress s) s.mByteCounter.toNat) t.mTapeImage =
        (.ok status, image)) :
    writeCommand fuel command t s =
      .ok (written status s.mByteCounter.toNat (withImage t image s)) := by
  rw [writeCommand_gather]
  dsimp only
  rw [if_pos hc, length_gather]
  exact onDevice_bind_ok hrun _

theorem writeCommand_counts (hc : command &&& 3 = 1)
    (hwrite : writeCommand fuel command t s = .ok s') :
    s'.mByteCounter = s.mByteCounter - BitVec.ofNat 16 s.mByteCounter.toNat ∧
      localMemoryAddress s' = localMemoryAddress s + BitVec.ofNat 16 (s.mByteCounter.toNat / 8) := by
  rcases hrun : IopBmxTape.write t.mIsReadOnly
    (gather s.ioMemory (localMemoryAddress s) s.mByteCounter.toNat) t.mTapeImage with
    ⟨e | status, image⟩
  · rw [writeCommand_gather] at hwrite
    dsimp only at hwrite
    rw [if_pos hc] at hwrite
    cases (onDevice_bind_error hrun _).symm.trans hwrite
  · obtain rfl := Except.ok.inj ((writeCommand_returns hc hrun).symm.trans hwrite)
    exact ⟨rfl, Function.update_self ..⟩

/-- A read returns if its device does, with no more than it was asked for. -/
theorem readCommand_returns (hc : command &&& 3 = 2) {status : BitVec 8}
    (hrun : IopBmxTape.read s.mByteCounter.toNat t.mTapeImage = (.ok (status, data), image)) :
    (s.mByteCounter.toNat < data.length → readCommand command t s = .error .assertion) ∧
      (data.length ≤ s.mByteCounter.toNat → ∃ s', readCommand command t s = .ok s' ∧
        Accounts s s' data.length ∧
        s'.ioMemory = s.ioMemory.store (localMemoryAddress s &&& 0xfffc) (parcelsOf data)) := by
  rw [readCommand, if_pos hc]
  constructor
  · intro hlong
    exact (onDevice_bind_ok hrun _).trans (if_pos hlong)
  · intro hroom
    exact ⟨_, (onDevice_bind_ok hrun _).trans (if_neg (Nat.not_lt.mpr hroom)),
      ⟨rfl, Function.update_self ..⟩, rfl⟩

/-! ## 4. A record -/

theorem write_describes (hs : PokedTapFile.OnDrive t.mTapeImage.tape h)
    (hfits : ∀ x ∈ h.items, ItemFits x) (hsafe : WriteSafe h) (hne : data ≠ [])
    (hlen : data.length + 4 < 2 ^ 32) :
    ∃ status image, IopBmxTape.write false data t.mTapeImage = (.ok status, image) ∧
      Describes image.tape (h.write (.record data)) := by
  obtain ⟨r, hopen, hd, -⟩ := PokedTapFile.reOpen_opens hs
  obtain ⟨image, hwrite, hd'⟩ := PokedTapFile.writeRecord_steps hd hfits hne hlen
  obtain ⟨state, hstate⟩ := PokedTapFile.getState_described (hd' hsafe)
  have hget : PokedTapFile.getState image = (.ok state, image) := PokedTapFile.onTape_ok hstate
  refine ⟨if state = .EndOfFile then IopBmxTape.statControlUnitEnd ||| IopBmxTape.statUnitException
    else IopBmxTape.statControlUnitEnd, image, ?_, hd' hsafe⟩
  rw [IopBmxTape.write]
  refine (Run.bind_apply_ok (m := PokedTapFile.pokedAssert true) rfl).trans ?_
  rw [Run.bind_apply_ok hopen, Run.bind_apply_ok hwrite, Run.bind_apply_ok hget]
  rfl

/-- A tape reads the record in front of its head. -/
theorem read_record {behind front : List TapItem} {n : Nat}
    (hs : PokedTapFile.OnDrive t.mTapeImage.tape (.between behind (.record data :: front)))
    (hfits : ∀ x ∈ Head.items (.between behind (.record data :: front)), ItemFits x)
    (hlen : (tapeImage (.between behind (.record data :: front))).length < 2 ^ 63)
    (hn : data.length ≤ n) (hmax : n < 2 ^ 16) :
    ∃ status image, IopBmxTape.read n t.mTapeImage =
      (.ok (status, PokedTapFile.poke t.mTapeImage data), image) := by
  have hdata : ItemFits (.record data) := hfits _ (by simp [Head.items])
  have hsize : (BitVec.ofNat 32 n).toNat = n := by
    rw [BitVec.toNat_ofNat]
    omega
  obtain ⟨r, hopen, hd, -⟩ := PokedTapFile.reOpen_opens hs
  have hpos : 0 < (BitVec.ofNat 32 n).toNat := hsize.symm ▸ hdata.1.trans_le hn
  obtain ⟨image, hread, hd'⟩ := PokedTapFile.read_steps hd hfits hlen hpos
  obtain ⟨state, hstate⟩ := PokedTapFile.getState_described hd'
  have hget : PokedTapFile.getState image = (.ok state, image) := PokedTapFile.onTape_ok hstate
  have hwhole : (Head.read (BitVec.ofNat 32 n).toNat (.between behind (.record data :: front))).1 =
      data := by
    rw [hsize, Head.read, Head.readFrom, if_pos hn]
  rw [hwhole, PokedTapFile.poke_reOpen hopen] at hread
  exact ⟨_, image, (Run.bind_apply_ok hopen).trans ((Run.bind_apply_ok hread).trans
    (Run.bind_apply_ok hget))⟩

/-- The head in front of a record that has been written. -/
theorem prev_write (x : TapItem) (h : TapHead) :
    ∃ behind front, (h.write x).prev = .between behind (x :: front) := by
  rcases h with ⟨behind, _ | ⟨y, front⟩⟩ | ⟨behind, done, todo, front⟩
  · exact ⟨behind, [], rfl⟩
  · exact ⟨behind, _, rfl⟩
  · exact ⟨behind, [], rfl⟩

theorem getD_eq_iff {xs ys : List (BitVec 8)} (hlen : xs.length = ys.length) :
    (∀ k < ys.length, xs.getD k 0 = ys.getD k 0) ↔ xs = ys := by
  constructor
  · intro hall
    refine List.ext_getElem hlen fun k hk hk' => ?_
    have hbyte := hall k hk'
    rwa [List.getD_eq_getElem _ _ hk, List.getD_eq_getElem _ _ hk'] at hbyte
  · rintro rfl k -
    rfl

theorem gather_eq_nil {mem : IoMemory} {aAddr : IopInt} {n : Nat} :
    gather mem aAddr n = [] ↔ n = 0 := by
  rw [← List.length_eq_zero_iff, length_gather]

/-- A write counts its address on as it should only where nothing is moved. -/
theorem writeCommand_accounts_iff (hc : command &&& 3 = 1)
    (hwrite : writeCommand fuel command t s = .ok s') :
    Accounts s s' s.mByteCounter.toNat ↔ s.mByteCounter.toNat = 0 := by
  obtain ⟨hcounter, haddress⟩ := writeCommand_counts hc hwrite
  constructor
  · intro haccounts
    have hsame := haddress.symm.trans haccounts.address
    have hcount := s.mByteCounter.isLt
    have hlow := congrArg BitVec.toNat ((BitVec.add_right_inj _).mp hsame)
    rw [BitVec.toNat_ofNat, BitVec.toNat_ofNat, Nat.mod_eq_of_lt (by omega),
      Nat.mod_eq_of_lt (by omega)] at hlow
    omega
  · intro hzero
    exact ⟨hcounter, by rw [haddress, hzero]⟩

/-- A read that returns accounts for what it moves. -/
theorem readCommand_accounts (hc : command &&& 3 = 2) {status : BitVec 8}
    (hrun : IopBmxTape.read s.mByteCounter.toNat t.mTapeImage = (.ok (status, data), image))
    (hread : readCommand command t s = .ok s') : Accounts s s' data.length := by
  obtain ⟨hshort, hroom⟩ := readCommand_returns hc hrun
  rcases Nat.lt_or_ge s.mByteCounter.toNat data.length with hlong | hfit
  · cases (hshort hlong).symm.trans hread
  · obtain ⟨s₁, hread', haccounts, -⟩ := hroom hfit
    obtain rfl := Except.ok.inj (hread'.symm.trans hread)
    exact haccounts

/-- **A record that was written is read** in front of the head, into the parcels of the address. -/
theorem readCommand_written (hc : command &&& 3 = 2)
    (hon : PokedTapFile.OnDrive t.mTapeImage.tape (h.write (.record data)).prev)
    (hfits : ∀ x ∈ (h.write (.record data)).items, ItemFits x)
    (hlen : (tapeImage (h.write (.record data))).length < 2 ^ 63)
    (hroom : data.length ≤ s.mByteCounter.toNat) :
    ∃ s', readCommand command t s = .ok s' ∧ Accounts s s' data.length ∧
      ∀ k < data.length, s'.ioMemory.byte (localMemoryAddress s &&& 0xfffc) k =
        (PokedTapFile.poke t.mTapeImage data).getD k 0 := by
  have hcount := s.mByteCounter.isLt
  have hsame := PokedTapFile.length_poke t.mTapeImage data
  obtain ⟨behind, front, hprev⟩ := prev_write (.record data) h
  have hitems : Head.items (.between behind (.record data :: front)) =
      (h.write (.record data)).items := by rw [← hprev, Head.items_prev]
  rw [hprev] at hon
  rw [tapeImage] at hlen
  rw [← hitems] at hfits hlen
  obtain ⟨status, image, hread⟩ := read_record hon hfits hlen hroom hcount
  obtain ⟨s', hs', haccounts, hmem⟩ := (readCommand_returns hc hread).2 (hsame.trans_le hroom)
  refine ⟨s', hs', hsame ▸ haccounts, fun k hk => ?_⟩
  rw [hmem]
  exact byte_store _ _ (by omega) (hsame.symm ▸ hk)

/-- **The commands of the channel that read and write**, for every byte counter and address. What is
    moved is counted down; the address is counted on by groups for a read, but for a write only if
    nothing is moved. A record that a write takes from the memory comes back to its parcels, whatever
    is done before it is read, if no poke changes it. -/
theorem channelCommand_accounts (fuel : Nat) (aData : IopInt) (hactive : assertActive s = .ok t) :
    (∀ data s', Transfers (aData.setWidth 8) t s data → channelCommand fuel aData s = .ok s' →
      s'.mByteCounter = s.mByteCounter - BitVec.ofNat 16 data.length ∧
        (Accounts s s' data.length ↔ (aData.setWidth 8 : BitVec 8) &&& 3 = 2 ∨ data = [])) ∧
    (∀ data, (aData.setWidth 8 : BitVec 8) &&& 3 = 1 → Transfers (aData.setWidth 8) t s data →
      data ≠ [] → t.mIsReadOnly = false → PokedTapFile.OnDrive t.mTapeImage.tape h →
      (∀ x ∈ h.items, ItemFits x) → WriteSafe h →
      (tapeImage (h.write (.record data))).length < 2 ^ 63 →
      ∃ s' t', channelCommand fuel aData s = .ok s' ∧ assertActive s' = .ok t' ∧
        Describes t'.mTapeImage.tape (h.write (.record data)) ∧
        ∀ (bData : IopInt) (r : IopChannelBmx) (u : IopBmxTape),
          (bData.setWidth 8 : BitVec 8) &&& 3 = 2 → assertActive r = .ok u →
          PokedTapFile.OnDrive u.mTapeImage.tape (h.write (.record data)).prev →
          data.length ≤ r.mByteCounter.toNat →
          localMemoryAddress r &&& 0xfffc = localMemoryAddress s &&& 0xfffc →
          ∃ r', channelCommand fuel bData r = .ok r' ∧ Accounts r r' data.length ∧
            ((∀ k < data.length, r'.ioMemory.byte (localMemoryAddress s &&& 0xfffc) k =
                s.ioMemory.byte (localMemoryAddress s &&& 0xfffc) k) ↔
              PokedTapFile.poke u.mTapeImage data = data)) := by
  constructor
  · intro data s' htransfers hok
    rcases htransfers with hc | ⟨hc, hread⟩
    · rw [channelCommand_write hactive hc] at hok
      have hiff := writeCommand_accounts_iff hc hok
      rw [length_gather, gather_eq_nil]
      refine ⟨(writeCommand_counts hc hok).1, fun haccounts => .inr (hiff.mp haccounts), ?_⟩
      rintro (hr | hzero)
      · rw [hr] at hc
        cases hc
      · exact hiff.mpr hzero
    · rw [channelCommand_read hactive hc] at hok
      have haccounts := readCommand_accounts hc hread hok
      exact ⟨haccounts.counter, fun _ => .inl hc, fun _ => haccounts⟩
  · intro data hc htransfers hne hro hs hfits hsafe hlen
    rcases htransfers with - | ⟨hread, -⟩
    · generalize hdata : gather s.ioMemory (localMemoryAddress s) s.mByteCounter.toNat = data at *
      have hcount : data.length < 2 ^ 16 := by
        rw [← hdata, length_gather]
        exact s.mByteCounter.isLt
      obtain ⟨status, image, hrun, hd⟩ := write_describes hs hfits hsafe hne (by omega)
      rw [← hro, ← hdata] at hrun
      refine ⟨_, _, (channelCommand_write hactive hc).trans (writeCommand_returns hc hrun),
        assertActive_withImage hactive rfl rfl, hd, ?_⟩
      intro bData r u hb hu hon hroom haddr
      have hnew : ∀ x ∈ (h.write (.record data)).items, ItemFits x :=
        Head.forall_items_write
          ⟨List.length_pos_of_ne_nil hne, show data.length < 2 ^ 32 by omega⟩ hfits
      obtain ⟨r', hr', haccounts, hback⟩ := readCommand_written hb hon hnew hlen hroom
      refine ⟨r', (channelCommand_read hu hb).trans hr', haccounts, ?_⟩
      rw [← getD_eq_iff (PokedTapFile.length_poke u.mTapeImage data)]
      refine forall₂_congr fun k hk => ?_
      have hwrote : s.ioMemory.byte (localMemoryAddress s &&& 0xfffc) k = data.getD k 0 := by
        rw [← hdata, length_gather] at hk
        rw [← hdata, getD_gather _ _ hk]
      rw [← haddr, hback k hk, haddr, hwrote]
    · rw [hread] at hc
      cases hc

end commands

/-- A channel with a blank tape, and `n` bytes of a memory full of ones to move. -/
def blank (n : IopInt) : IopChannelBmx where
  mDone := false
  mBusy := false
  mInterruptEnabled := true
  mLocalMemoryAdddress := fun _ => 0
  mByteCountStatusReg := 0
  mByteCountStatusRegValid := false
  mStatusReg := 0
  mStatusRegValid := false
  mChainingInterruptActive := false
  mDevices := [some ⟨false, PokedTapFile.ofDisk (some []) false⟩]
  mRequestInCnt := 0
  mStatusInCnt := 0
  mDisconnectInCnt := 0
  mActiveMemoryAddressIdx := 0
  mByteCounter := n
  mNextByteCounter := 0
  mLoadByteCounter := false
  mActiveDevice := 0
  mDeviceStatus := 0
  mSkipFlag := false
  mStackStatusFlag := false
  mChainingMode := 0
  mInterruptMode := .disabled
  mDelayCounter := 0
  mDelayLimit := 0
  ioMemory := fun _ => 0x0101

/-- Nine bytes are written, and can be read. -/
theorem channelCommand_accounts_nine : ∃ s' t', channelCommand 0 1 (blank 9) = .ok s' ∧
    assertActive s' = .ok t' ∧
      Describes t'.mTapeImage.tape (.between [.record (List.replicate 9 1)] []) := by
  have hdata : gather (blank 9).ioMemory (localMemoryAddress (blank 9)) (blank 9).mByteCounter.toNat =
      List.replicate 9 1 := (gather_eq _ _ _).trans rfl
  obtain ⟨s', t', hok, hactive, hd, -⟩ := (channelCommand_accounts (s := blank 9) (h := .between [] [])
    0 1 rfl).2 (List.replicate 9 1) rfl (hdata ▸ .write rfl) (by decide) rfl
    (.inl (describes_ofDisk [] false)) (by simp [Head.items]) trivial (by decide)
  exact ⟨s', t', hok, hactive, hd⟩

/-- A write of a byte does not count the address on. -/
theorem write_miscounts : ¬ ∀ (s s' : IopChannelBmx) (t : IopBmxTape) (data : List (BitVec 8)),
    assertActive s = .ok t → Transfers 1 t s data → channelCommand 0 1 s = .ok s' →
      Accounts s s' data.length := by
  intro hall
  have hdata : gather (blank 1).ioMemory (localMemoryAddress (blank 1)) (blank 1).mByteCounter.toNat =
      [1] := (gather_eq _ _ _).trans rfl
  have hne : ([1] : List (BitVec 8)) ≠ [] := by decide
  obtain ⟨status, image, hrun, -⟩ := write_describes (t := ⟨false, PokedTapFile.ofDisk (some []) false⟩)
    (h := .between [] []) (.inl (describes_ofDisk [] false)) (by simp [Head.items]) trivial hne
    (by decide)
  have hactive : assertActive (blank 1) = .ok ⟨false, PokedTapFile.ofDisk (some []) false⟩ := rfl
  rw [← hdata] at hrun
  have hok : channelCommand 0 1 (blank 1) = _ :=
    (channelCommand_write hactive rfl).trans (writeCommand_returns rfl hrun)
  have haddress := (hall _ _ _ _ hactive (.write rfl) hok).address
  rw [length_gather] at haddress
  exact absurd (show (0 : IopInt) = 4 from haddress) (by decide)

end IopChannelBmx

end CraySim
