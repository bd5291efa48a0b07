/-
  Subject:   A record of a tape read in pieces.

  A caller with a small buffer gets a record piece by piece, and asks `GetState` whether it is over.
  The comment on `Read` announces one more read for that; the code closes the record together with
  its last byte, also when exactly that byte was asked for.

  * `readRecord` -- `Read` until `EndOfRecord`, with a size of its own for every piece,
  * `ReadsFrom` -- the next `Read` reads the rest of a record, opened or not,
  * `read_last`, `read_piece` -- one piece,
  * `readRecord_rest` -- the pieces of what is left of a record,
  * `readRecord_pieces` -- the pieces of a record, and where the next `Read` starts.
-/
import CraySim.TapRun

namespace CraySim

open ByteFile Framed Tape

namespace TapFile

/-! ## 1. Reading in pieces -/

/-- Up to `fuel` pieces of a record, each with what `GetState` says behind it. -/
def readRecord : Nat → (Nat → CAddr) → Tap (List (List (BitVec 8) × TapState))
  | 0, _ => return []
  | fuel + 1, aMaxSize => do
    let piece ← read (aMaxSize 0)
    let state ← getState
    if state = .EndOfRecord then return [(piece, state)]
    else return (piece, state) :: (← readRecord fuel fun i => aMaxSize (i + 1))

/-- `todo` is left of a record, and the next `Read` takes from it. In front of a record nothing is
    read of it yet, and `Read` opens it first. -/
def ReadsFrom (s : TapFile) (behind : List TapItem) (done todo : List (BitVec 8))
    (front : List TapItem) : Prop :=
  ∀ aMaxSize : CAddr, 0 < aMaxSize.toNat → ∃ left : CAddr, left.toNat = todo.length ∧
    read aMaxSize s = readInRecord aMaxSize
      ⟨.ready (image itemBytes (behind.reverse ++ .record (done ++ todo) :: front))
        (position behind + 4 + done.length), .Forward, left, (position behind + 4 : Nat), true,
        false⟩

section pieces
variable {s : TapFile} {behind front : List TapItem} {data done todo : List (BitVec 8)}
  {aMaxSize : CAddr}

theorem readsFrom_between (hd : Describes s (.between behind (.record data :: front)))
    (hfits : ItemFits (.record data)) : ReadsFrom s behind [] data front :=
  fun _ hpos => ⟨itemSize (.record data), toNat_itemSize hfits, read_record hd hfits hpos⟩

theorem readsFrom_inside (hd : Describes s (.inside behind done todo front)) :
    ReadsFrom s behind done todo front :=
  fun _ hpos => read_in hd hpos

/-! ## 2. One piece -/

/-- All that is left: the record is over, and the head behind it. -/
theorem read_last (hr : ReadsFrom s behind done todo front) (htodo : todo ≠ [])
    (hmax : todo.length ≤ aMaxSize.toNat) : ∃ s', read aMaxSize s = (.ok todo, s') ∧
      Arrives s' (.between (.record (done ++ todo) :: behind) front) false := by
  have hlen : 0 < todo.length := List.length_pos_of_ne_nil htodo
  obtain ⟨left, hleft, hread⟩ := hr aMaxSize (by omega)
  rw [hread]
  exact readInRecord_whole hleft htodo hmax

/-- Less than what is left: the head stays in the record. -/
theorem read_piece (hr : ReadsFrom s behind done todo front) (hpos : 0 < aMaxSize.toNat)
    (hmax : aMaxSize.toNat < todo.length) :
    ∃ s', read aMaxSize s = (.ok (todo.take aMaxSize.toNat), s') ∧
      getState s' = (.ok .Normal, s') ∧
      ReadsFrom s' behind (done ++ todo.take aMaxSize.toNat) (todo.drop aMaxSize.toNat) front := by
  obtain ⟨left, hleft, hread⟩ := hr aMaxSize hpos
  obtain ⟨s', hs, harr⟩ := readInRecord_rest hleft hpos hmax
  rw [hread]
  exact ⟨s', hs, getState_inside harr, readsFrom_inside harr.describes⟩

/-! ## 3. All pieces -/

theorem readRecord_succ_normal {fuel : Nat} {sizes : Nat → CAddr} {s' s'' : TapFile}
    {piece : List (BitVec 8)} {pieces : List (List (BitVec 8) × TapState)}
    (hread : read (sizes 0) s = (.ok piece, s')) (hstate : getState s' = (.ok .Normal, s'))
    (hrest : readRecord fuel (fun i => sizes (i + 1)) s' = (.ok pieces, s'')) :
    readRecord (fuel + 1) sizes s = (.ok ((piece, .Normal) :: pieces), s'') := by
  rw [readRecord, Run.bind_apply_ok hread, Run.bind_apply_ok hstate, if_neg (by decide),
    Run.bind_apply_ok hrest]
  rfl

theorem readRecord_succ_last {fuel : Nat} {sizes : Nat → CAddr} {s' : TapFile}
    {piece : List (BitVec 8)} (hread : read (sizes 0) s = (.ok piece, s'))
    (hstate : getState s' = (.ok .EndOfRecord, s')) :
    readRecord (fuel + 1) sizes s = (.ok [(piece, .EndOfRecord)], s') := by
  rw [readRecord, Run.bind_apply_ok hread, Run.bind_apply_ok hstate, if_pos rfl]
  rfl

/-- **The rest of a record**: the pieces are its bytes in order, all of them but the last leave the
    head in the record, and the last ends it. -/
theorem readRecord_rest (n : Nat) {sizes : Nat → CAddr} (hr : ReadsFrom s behind done todo front)
    (htodo : todo ≠ []) (hlen : todo.length ≤ n) (hsizes : ∀ i, 0 < (sizes i).toNat) :
    ∃ init last s', (∀ fuel, n ≤ fuel →
        readRecord fuel sizes s = (.ok (init ++ [(last, .EndOfRecord)]), s')) ∧
      (init.map Prod.fst).flatten ++ last = todo ∧ last ≠ [] ∧ (∀ p ∈ init, p.2 = .Normal) ∧
      Arrives s' (.between (.record (done ++ todo) :: behind) front) false := by
  induction n generalizing s done todo sizes with
  | zero => exact absurd (List.eq_nil_of_length_eq_zero (Nat.le_zero.1 hlen)) htodo
  | succ n ih =>
    by_cases hmax : todo.length ≤ (sizes 0).toNat
    · obtain ⟨s', hread, harr⟩ := read_last hr htodo hmax
      refine ⟨[], todo, s', fun fuel hfuel => ?_, rfl, htodo, ?_, harr⟩
      · obtain ⟨k, rfl⟩ := Nat.exists_eq_add_of_le' hfuel
        exact readRecord_succ_last hread (getState_record harr)
      · exact fun p hp => absurd hp List.not_mem_nil
    · have hpos := hsizes 0
      obtain ⟨s', hread, hstate, hr'⟩ := read_piece hr hpos (by omega)
      -- what is left is shorter by the piece, and not empty
      have hshorter : (todo.drop (sizes 0).toNat).length ≤ n := by
        rw [List.length_drop]
        omega
      have hsome : todo.drop (sizes 0).toNat ≠ [] := by
        refine List.ne_nil_of_length_pos ?_
        rw [List.length_drop]
        omega
      obtain ⟨init, last, s'', hrest, hdata, hlast, hinit, harr⟩ :=
        ih hr' hsome hshorter fun i => hsizes (i + 1)
      refine ⟨(todo.take (sizes 0).toNat, .Normal) :: init, last, s'', fun fuel hfuel => ?_, ?_,
        hlast, fun p hp => ?_, ?_⟩
      · obtain ⟨k, rfl⟩ := Nat.exists_eq_add_of_le' hfuel
        exact readRecord_succ_normal hread hstate (hrest (k + n) (Nat.le_add_left n k))
      · rw [List.map_cons, List.flatten_cons, List.append_assoc, hdata, List.take_append_drop]
      · rcases List.mem_cons.1 hp with rfl | hp
        · rfl
        · exact hinit p hp
      · rwa [List.append_assoc, List.take_append_drop] at harr

/-- **A record in pieces**, whatever the sizes: together they are the record, `EndOfRecord` comes
    with the last byte and not before, and the next `Read` reads what stands behind the record. -/
theorem readRecord_pieces (hd : Describes s (.between behind (.record data :: front)))
    (hfits : ∀ x ∈ Head.items (.between behind (.record data :: front)), ItemFits x)
    {sizes : Nat → CAddr} (hsizes : ∀ i, 0 < (sizes i).toNat) :
    ∃ init last s', (∀ fuel, data.length ≤ fuel →
        readRecord fuel sizes s = (.ok (init ++ [(last, .EndOfRecord)]), s')) ∧
      (init.map Prod.fst).flatten ++ last = data ∧ last ≠ [] ∧ (∀ p ∈ init, p.2 = .Normal) ∧
      Describes s' (.between (.record data :: behind) front) ∧
      ∀ n : CAddr, 0 < n.toNat → ∃ s'',
        read n s' = (.ok (Head.read n.toNat (.between (.record data :: behind) front)).1, s'') ∧
        Describes s'' (Head.read n.toNat (.between (.record data :: behind) front)).2 := by
  have hx : ItemFits (.record data) := hfits _ (by simp [Head.items])
  have hne : data ≠ [] := List.ne_nil_of_length_pos hx.1
  obtain ⟨init, last, s', hread, hdata, hlast, hinit, harr⟩ :=
    readRecord_rest data.length (readsFrom_between hd hx) hne (Nat.le_refl _) hsizes
  have hd' : Describes s' (.between (.record data :: behind) front) := harr.describes
  have hfits' : ∀ x ∈ Head.items (.between (.record data :: behind) front), ItemFits x := by
    intro x hmem
    exact hfits x (by simpa [Head.items] using hmem)
  exact ⟨init, last, s', hread, hdata, hlast, hinit, hd', fun n hn => read_describes hd' hfits' hn⟩

/-- Three bytes, two at a time. -/
theorem readRecord_pieces_two : ∃ init last s', (∀ fuel, 3 ≤ fuel →
      readRecord fuel (fun _ => 2)
        (ofDisk (some (image itemBytes [.record [7, 8, 9], .mark])) false) =
          (.ok (init ++ [(last, .EndOfRecord)]), s')) ∧
    (init.map Prod.fst).flatten ++ last = [7, 8, 9] := by
  obtain ⟨init, last, s', hread, hdata, -⟩ :=
    @readRecord_pieces _ [] [.mark] [7, 8, 9] (describes_ofDisk [.record [7, 8, 9], .mark] false)
      (by simp [Head.items, ItemFits]) (fun _ => 2) (fun _ => by decide)
  exact ⟨init, last, s', hread, hdata⟩

end pieces

end TapFile

end CraySim
