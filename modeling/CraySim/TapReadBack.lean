/-
  Subject:   What is written on a new tape is read back.

  * `writeItem`, `writeItems` -- records and file marks written one after the other,
  * `readItems` -- rewinding and reading until the end of the tape,
  * `readItems_fresh` -- what is read is what was stored,
  * `tape_roundTrip` -- it is what was written iff no record is too long for a length word.
-/
import CraySim.TapRun

namespace CraySim

open ByteFile Framed Tape

namespace TapFile

/-! ## 1. Writing and reading a tape -/

def writeItem : TapItem → Tap Unit
  | .record aData => writeRecord aData
  | .mark => writeEndOfFile

def writeItems : List TapItem → Tap Unit
  | [] => pure ()
  | x :: xs => do
    writeItem x
    writeItems xs

/-- `Read` until `EndOfTape`: after `EndOfFile` there was a mark, otherwise a record. -/
def readUntilEnd : Nat → Tap (Option (List TapItem))
  | 0 => return none
  | fuel + 1 => do
    let data ← read (BitVec.allOnes 32)
    match ← getState with
    | .EndOfTape => return some []
    | .EndOfFile => return (← readUntilEnd fuel).map (.mark :: ·)
    | _ => return (← readUntilEnd fuel).map (.record data :: ·)

/-- Rewinds the tape and reads it. -/
def readItems (fuel : Nat) : Tap (Option (List TapItem)) := do
  seekToBeginningOfTape
  readUntilEnd fuel

/-- What the image keeps of an item. -/
def stored : TapItem → TapItem
  | .record aData =>
    if aData.length % 2 ^ 32 = 0 then .mark else .record (aData.take (aData.length % 2 ^ 32))
  | .mark => .mark

theorem itemFits_stored (x : TapItem) : ItemFits (stored x) := by
  cases x with
  | record aData =>
    have hlt : aData.length % 2 ^ 32 < 2 ^ 32 := Nat.mod_lt _ (by decide)
    have hle : aData.length % 2 ^ 32 ≤ aData.length := Nat.mod_le _ _
    rw [stored]
    split
    · trivial
    · rw [ItemFits, List.length_take_of_le hle]
      omega
  | mark => trivial

/-- A record is stored as it is iff its length fits in a length word. -/
theorem stored_record_eq {aData : List (BitVec 8)} (hne : aData ≠ []) :
    stored (.record aData) = .record aData ↔ aData.length < 2 ^ 32 := by
  have hpos : 0 < aData.length := List.length_pos_of_ne_nil hne
  rw [stored]
  constructor
  · intro h
    split at h
    · exact nomatch h
    · have htake : (aData.take (aData.length % 2 ^ 32)).length = aData.length :=
        congrArg List.length (Item.record.inj h)
      rw [List.length_take] at htake
      omega
  · intro h
    rw [Nat.mod_eq_of_lt h, if_neg (Nat.ne_of_gt hpos), List.take_length]

theorem map_stored_eq_iff {items : List TapItem}
    (hitems : ∀ aData, .record aData ∈ items → aData ≠ []) :
    items.map stored = items ↔ ∀ aData, .record aData ∈ items → aData.length < 2 ^ 32 := by
  constructor
  · intro h aData hmem
    have hsame : ∀ x ∈ items, stored x = id x :=
      List.map_inj_left.1 (h.trans (List.map_id items).symm)
    exact (stored_record_eq (hitems aData hmem)).1 (hsame _ hmem)
  · intro h
    refine (List.map_congr_left fun x hx => ?_).trans (List.map_id items)
    cases x with
    | record aData => exact (stored_record_eq (hitems aData hx)).2 (h aData hx)
    | mark => rfl

/-! ## 2. Writing -/

/-- A tape without a file after `close`. -/
def closedTape (aMemory : Bool) : TapFile :=
  { stream := { disk := none, isOpen := false, pos := 0, eofbit := false, failbit := true }
    mLastCmdDirection := .None
    mCurRecordLeft := 0
    mCurRecordStart := 0
    mCurRecordValid := false
    mCurRecordEof := aMemory }

section writing
variable {s : TapFile} {behind : List TapItem}

/-- Of the data only what the length word says is written. -/
theorem putItem_take (aRecordSize : CAddr) (aData : List (BitVec 8)) :
    putItem aRecordSize aData = putItem aRecordSize (aData.take aRecordSize.toNat) := by
  rw [putItem, putItem, List.take_take, Nat.min_self]

theorem itemData_stored (aData : List (BitVec 8)) :
    itemData (stored (.record aData)) = aData.take (BitVec.ofNat 32 aData.length).toNat := by
  rw [BitVec.toNat_ofNat, stored]
  split
  · rename_i hzero
    rw [hzero, List.take_zero, itemData]
  · rfl

theorem writeRecordInternal_stored (aData : List (BitVec 8)) :
    writeRecordInternal aData = writeRecordInternal (itemData (stored (.record aData))) := by
  have hle : (BitVec.ofNat 32 aData.length).toNat ≤ aData.length := by
    rw [BitVec.toNat_ofNat]
    exact Nat.mod_le _ _
  have hsize : BitVec.ofNat 32 (itemData (stored (.record aData))).length =
      BitVec.ofNat 32 aData.length := by
    rw [itemData_stored, List.length_take_of_le hle, BitVec.ofNat_toNat, BitVec.setWidth_eq]
  simp only [writeRecordInternal, hsize]
  simp only [itemData_stored, ← putItem_take]

theorem writeItem_stored {x : TapItem} (hx : x ≠ .record []) (s : TapFile) :
    writeItem x s =
      writeRecordInternal (itemData (stored x)) { s with mLastCmdDirection := .Forward } := by
  cases x with
  | record aData =>
    have hne : aData ≠ [] := fun h => hx (h ▸ rfl)
    rw [writeItem, writeRecord_cons hne, ← writeRecordInternal_stored]
    rfl
  | mark => rfl

/-- At the end of the tape an item is put behind the others. -/
theorem writeItem_end {x : TapItem} (hx : x ≠ .record []) (hd : Describes s (.between behind [])) :
    ∃ s', writeItem x s = (.ok (), s') ∧ Describes s' (.between (stored x :: behind) []) := by
  rw [writeItem_stored hx]
  obtain ⟨s', hs, harr⟩ :=
    writeRecordInternal_end (describes_setDirection hd .Forward) (itemFits_stored x)
  exact ⟨s', hs, harr.describes⟩

theorem writeItems_end {xs : List TapItem} (hxs : ∀ x ∈ xs, x ≠ .record [])
    (hd : Describes s (.between behind [])) : ∃ s', writeItems xs s = (.ok (), s') ∧
      Describes s' (.between ((xs.map stored).reverse ++ behind) []) := by
  induction xs generalizing s behind with
  | nil => exact ⟨s, rfl, hd⟩
  | cons x xs ih =>
    obtain ⟨s', hs, hd'⟩ := writeItem_end (hxs x List.mem_cons_self) hd
    obtain ⟨s'', hs', hd''⟩ := ih (fun y hy => hxs y (List.mem_cons_of_mem _ hy)) hd'
    refine ⟨s'', ?_, ?_⟩
    · rw [writeItems, Run.bind_apply_ok hs, hs']
    · rwa [List.map_cons, List.reverse_cons, List.append_assoc, List.singleton_append]

/-- On a tape without a file the first write makes the file. -/
theorem writeRecordInternal_absent (aData : List (BitVec 8)) (d : Direction) (aMemory : Bool) :
    writeRecordInternal aData { ofDisk none aMemory with mLastCmdDirection := d } =
      writeRecordInternal aData (ofDisk (some []) aMemory) := by
  have hclose : closeTape { ofDisk none aMemory with mLastCmdDirection := d } =
      (.ok (), closedTape aMemory) := rfl
  have hmade : recreate (closedTape aMemory) = (.ok (), ofDisk (some []) aMemory) := rfl
  have habsent : fileExists { ofDisk none aMemory with mLastCmdDirection := d } = false := rfl
  have hthere : fileExists (ofDisk (some []) aMemory) = true := rfl
  simp only [writeRecordInternal, Run.bind_apply, Run.get_apply, habsent, hthere, hclose, hmade,
    Bool.not_false, Bool.not_true, if_true]
  rfl

end writing

/-- The items written on a new tape, whether there is a file or not; of the tape without a file
    nothing was written if there were none. -/
theorem writeItems_fresh {disk : Option (List (BitVec 8))} (hfresh : disk = none ∨ disk = some [])
    (aMemory : Bool) {xs : List TapItem} (hxs : ∀ x ∈ xs, x ≠ .record []) :
    xs = [] ∧ disk = none ∨ ∃ s', writeItems xs (ofDisk disk aMemory) = (.ok (), s') ∧
      Describes s' (.between (xs.map stored).reverse []) := by
  have hempty : Describes (ofDisk (some []) aMemory) (.between [] []) := describes_ofDisk [] aMemory
  rcases hfresh with rfl | rfl
  · rcases xs with _ | ⟨x, xs⟩
    · exact .inl ⟨rfl, rfl⟩
    · -- the first item is written as if the file had been there
      have hx := hxs x List.mem_cons_self
      have hfirst : ∃ s', writeItem x (ofDisk none aMemory) = (.ok (), s') ∧
          Describes s' (.between [stored x] []) := by
        obtain ⟨s', hs, harr⟩ := writeRecordInternal_end hempty (itemFits_stored x)
        rw [writeItem_stored hx, writeRecordInternal_absent]
        exact ⟨s', hs, harr.describes⟩
      obtain ⟨s', hs, hd⟩ := hfirst
      obtain ⟨s'', hs', hd'⟩ := writeItems_end (fun y hy => hxs y (List.mem_cons_of_mem _ hy)) hd
      refine .inr ⟨s'', ?_, ?_⟩
      · rw [writeItems, Run.bind_apply_ok hs, hs']
      · rwa [List.map_cons, List.reverse_cons]
  · obtain ⟨s', hs, hd⟩ := writeItems_end hxs hempty
    rw [List.append_nil] at hd
    exact .inr ⟨s', hs, hd⟩

/-! ## 3. Reading -/

section reading
variable {s : TapFile} {behind front : List TapItem} {x : TapItem}

theorem read_item (hd : Describes s (.between behind (x :: front))) (hfits : ItemFits x) :
    ∃ s', read (BitVec.allOnes 32) s = (.ok (itemData x), s') ∧
      Arrives s' (.between (x :: behind) front) x.isMark := by
  have hmax : (BitVec.allOnes 32).toNat = 2 ^ 32 - 1 := rfl
  cases x with
  | record data =>
    have hle : data.length ≤ (BitVec.allOnes 32).toNat := by
      have hlt := hfits.2
      omega
    rw [read_record hd hfits (by decide)]
    exact readInRecord_whole (toNat_itemSize hfits) (List.ne_nil_of_length_pos hfits.1) hle
  | mark => exact read_mark hd (by decide)

/-- What is read behind an item is put behind it. -/
theorem fst_map {m : Tap (Option (List TapItem))} {o : Option (List TapItem)}
    (f : List TapItem → List TapItem) (hm : (m s).1 = .ok o) :
    ((do return (← m).map f : Tap (Option (List TapItem))) s).1 = .ok (o.map f) := by
  rcases hr : m s with ⟨r, s'⟩
  rw [hr] at hm
  dsimp only at hm
  rw [hm] at hr
  rw [Run.bind_apply_ok hr]
  rfl

/-- Reading goes on as long as there are items, and needs one step more. -/
theorem readUntilEnd_front (fuel : Nat) (hd : Describes s (.between behind front))
    (hfits : ∀ x ∈ front, ItemFits x) :
    (readUntilEnd fuel s).1 = .ok (if front.length < fuel then some front else none) := by
  induction fuel generalizing s behind front with
  | zero => rfl
  | succ fuel ih =>
    rcases front with _ | ⟨x, front⟩
    · have hread := @read_end s behind (BitVec.allOnes 32) hd (by decide)
      rw [readUntilEnd, Run.bind_apply_ok hread, Run.bind_apply_ok (getState_ended rfl)]
      rfl
    · obtain ⟨s', hread, harr⟩ := read_item hd (hfits x List.mem_cons_self)
      have hrest := ih harr.describes fun y hy => hfits y (List.mem_cons_of_mem _ hy)
      have hfuel : (if (x :: front).length < fuel + 1 then some (x :: front) else none) =
          (if front.length < fuel then some front else none).map (x :: ·) := by
        rw [List.length_cons]
        split
        · rw [if_pos (by omega), Option.map_some]
        · rw [if_neg (by omega), Option.map_none]
      rw [readUntilEnd, Run.bind_apply_ok hread, hfuel]
      cases x with
      | record data =>
        rw [Run.bind_apply_ok (getState_record harr)]
        exact fst_map (.record data :: ·) hrest
      | mark =>
        rw [Run.bind_apply_ok (getState_mark harr)]
        exact fst_map (.mark :: ·) hrest

end reading

/-! ## 4. The round trip -/

theorem readItems_fresh {disk : Option (List (BitVec 8))} (hfresh : disk = none ∨ disk = some [])
    (aMemory : Bool) {items : List TapItem} (hitems : ∀ x ∈ items, x ≠ .record []) {fuel : Nat}
    (hfuel : items.length < fuel) :
    ((do writeItems items; readItems fuel : Tap (Option (List TapItem))) (ofDisk disk aMemory)).1 =
      .ok (some (items.map stored)) := by
  rcases writeItems_fresh hfresh aMemory hitems with ⟨rfl, rfl⟩ | ⟨s, hs, hd⟩
  · -- there is no file, and `Read` says so
    obtain ⟨n, rfl⟩ := Nat.exists_eq_add_one.mpr hfuel
    rfl
  · obtain ⟨s', hs', harr⟩ := seekToBeginningOfTape_rewind hd
    have hitems' : Head.items (.between (items.map stored).reverse []) = items.map stored := by
      rw [Head.items, List.reverse_reverse, List.append_nil]
    rw [Head.rewind, hitems'] at harr
    have hfits : ∀ x ∈ items.map stored, ItemFits x := by
      intro x hx
      obtain ⟨y, -, rfl⟩ := List.mem_map.1 hx
      exact itemFits_stored y
    rw [Run.bind_apply_ok hs, readItems, Run.bind_apply_ok hs',
      readUntilEnd_front fuel harr.describes hfits, List.length_map, if_pos hfuel]

/-- **Round trip**: what is written on a new tape, rewound and read until its end is what was
    written, exactly when no record is too long for its length words. -/
theorem tape_roundTrip {disk : Option (List (BitVec 8))} (hfresh : disk = none ∨ disk = some [])
    (aMemory : Bool) {items : List TapItem} (hitems : ∀ aData, .record aData ∈ items → aData ≠ []) :
    (∀ fuel, items.length < fuel →
      ((do writeItems items; readItems fuel : Tap (Option (List TapItem)))
        (ofDisk disk aMemory)).1 = .ok (some items)) ↔
      ∀ aData, .record aData ∈ items → aData.length < 2 ^ 32 := by
  have hne : ∀ x ∈ items, x ≠ .record [] := fun x hx hnil => hitems [] (hnil ▸ hx) rfl
  rw [← map_stored_eq_iff hitems]
  constructor
  · intro h
    have hread := h (items.length + 1) (Nat.lt_succ_self _)
    rw [readItems_fresh hfresh aMemory hne (Nat.lt_succ_self _)] at hread
    exact Option.some.inj (Except.ok.inj hread)
  · intro h fuel hfuel
    rw [readItems_fresh hfresh aMemory hne hfuel, h]

theorem tape_roundTrip_short :
    ((do writeItems [.record [7], .mark, .mark]; readItems 4 : Tap (Option (List TapItem)))
      (ofDisk none false)).1 = .ok (some [.record [7], .mark, .mark]) :=
  (@tape_roundTrip none (.inl rfl) false [.record [7], .mark, .mark]
    (by simp)).2 (by simp) 4 (by decide)

/-- A record of `2 ^ 32` bytes is written as a file mark. -/
theorem tape_roundTrip_long :
    ((do writeItems [.record (List.replicate (2 ^ 32) 0)]; readItems 2 :
      Tap (Option (List TapItem))) (ofDisk none false)).1 = .ok (some [.mark]) := by
  have hlen : (List.replicate (2 ^ 32) (0 : BitVec 8)).length = 2 ^ 32 := List.length_replicate
  have hstored : stored (.record (List.replicate (2 ^ 32) 0)) = .mark := by
    rw [stored, hlen, Nat.mod_self, if_pos rfl]
  have hne : (Item.record (List.replicate (2 ^ 32) (0 : BitVec 8))) ≠ .record [] := by
    intro h
    have hzero := congrArg Item.length h
    rw [Item.length, hlen] at hzero
    exact absurd hzero (by decide)
  have hread := @readItems_fresh none (.inl rfl) false [.record (List.replicate (2 ^ 32) 0)]
    (fun x hx => List.mem_singleton.1 hx ▸ hne) 2 (by decide)
  rwa [List.map_singleton, hstored] at hread

end TapFile

end CraySim
