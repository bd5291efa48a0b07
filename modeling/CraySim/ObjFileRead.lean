/-
  Subject:   When reading an object file comes to an end, and what is read then.

  All loops but one come to their end with the file or with a size that is reached. The loop that
  skips tables goes by the length of a table from the beginning of its header; a length of 0 leads
  back to the same header.

  * `Sound` -- the text of each block is as long as the block, and fits into memory,
  * `Reads` -- reading ends, with an error or with a sound file,
  * `SkipsTo` -- from one table the loop gets to another,
  * `EmptyTable` -- a table to be skipped that has the length 0,
  * `reads_iff` -- reading ends exactly where no such table is met.
-/
import CraySim.Lib.EventRun
import CraySim.ObjFile
import Mathlib.Data.List.Forall2
import Mathlib.Logic.Relation

namespace CraySim

namespace ObjFile

open ByteFile FileStream
open EventRun (exists_of_bind)

/-! ## 1. What is to be read -/

/-- The words of text of a block. -/
def TxtBlock.textWords (t : TxtBlock) : Nat := (t.mTxtItems.map TxtItem.mNumberOfTextWords).sum

/-- The text read for a block. -/
structure TextOf (b : BlockDesc) (t : TxtBlock) : Prop where
  words : b.hasText = true → t.textWords = b.pdtbkln
  none : b.hasText = false → t.mTxtItems = []

/-- `MemorySize`: the largest block length. -/
def memorySize (obj : Obj) : Nat :=
  obj.mBlocks.foldl (fun MemorySize b => if MemorySize < b.pdtbkln then b.pdtbkln else MemorySize) 0

/-- Each block has its text, and `Flatten` stays in a memory of the largest block. -/
structure Sound (obj : Obj) : Prop where
  text : List.Forall₂ TextOf obj.mBlocks obj.mTxtBlocks
  flattens : ∀ t ∈ obj.mTxtBlocks,
    ∃ r, t.flatten (List.replicate (memorySize obj * 8) 0) 0 = .ok r

/-- Reading a file ends, with an error or with a sound object. -/
def Reads (file : List (BitVec 8)) : Prop :=
  ∃ fuel r, read fuel (ready file 0) = some r ∧ ∀ obj, r = .ok obj → Sound obj

/-- From the table at one place the loop gets to that at another. -/
def SkipsTo : FileStream → FileStream → Prop :=
  Relation.ReflTransGen fun s s' => skipRound s = .inl s'

/-- A table that is to be skipped and has the length 0. -/
structure EmptyTable (s : FileStream) : Prop where
  whole : (HdrDesc.read s).2.good = true
  skipped : isSkipped (HdrDesc.read s).1.hdr_type = true
  empty : (HdrDesc.read s).1.hdr_len = 0

/-! ## 2. The text of a block -/

/-- The text words of an item are there. -/
def TxtItem.Full (i : TxtItem) : Prop := i.mContent.length = i.mNumberOfTextWords

theorem length_readArr (n : Nat) (s : FileStream) : (readArr n s).1.length = n := by
  rw [readArr]
  split
  · next hnone => rw [hnone, List.length_nil]
  · exact length_wordsOf _ _

theorem full_readItem (s : FileStream) : (TxtItem.container.read s).1.Full :=
  length_readArr _ _

/-- What holds of every record read holds of all records of an area. -/
theorem forall_readArea {α : Type} {c : Container α} {P : α → Prop} (h : ∀ s, P (c.read s).1)
    (size Idx : Nat) (s : FileStream) : ∀ a ∈ (readArea c size Idx s).1, P a := by
  induction hn : size - Idx using Nat.strong_induction_on generalizing Idx s with
  | _ n ih =>
    rw [readArea]
    split
    · next hlt =>
      have hpos := c.sizeInWords_pos (c.read s).1
      intro a ha
      rcases List.mem_cons.mp ha with rfl | hrest
      · exact h s
      · exact ih _ (by omega) (Idx + c.sizeInWords (c.read s).1) (c.read s).2 rfl a hrest
    · exact fun a ha => absurd ha List.not_mem_nil

variable {s : FileStream}

/-- The loop over the text tables counts the words it has read. -/
theorem readTxt_words {BlockLen WordsRead : Nat} {Header : HdrDesc} {items : List TxtItem}
    {r : Nat × HdrDesc × List TxtItem × FileStream}
    (hwords : WordsRead = (items.map TxtItem.mNumberOfTextWords).sum)
    (hfull : ∀ i ∈ items, i.Full) (h : readTxt BlockLen WordsRead Header items s = .ok r) :
    r.1 = (r.2.2.1.map TxtItem.mNumberOfTextWords).sum ∧ ∀ i ∈ r.2.2.1, i.Full := by
  fun_induction readTxt BlockLen WordsRead Header items s with
  | case1 => cases h
  | case2 => cases h
  | case3 WordsRead Header items s hless htype new SubBlockRead s₁ hitems hsize Header' s₂ hheader ih =>
    refine ih ?_ ?_ h
    · rw [hwords, List.map_append, List.sum_append]
    · intro i hi
      rcases List.mem_append.mp hi with hold | hnew
      · exact hfull i hold
      · refine forall_readArea full_readItem Header.hdr_len 1 s i ?_
        rwa [hitems]
  | case4 => exact Except.ok.inj h ▸ ⟨hwords, hfull⟩

/-- The text of a block, and that it is all there. -/
theorem textOf_read {b : BlockDesc} {r : TxtBlock × FileStream}
    (h : TxtBlock.read b s = .ok r) : TextOf b r.1 ∧ ∀ i ∈ r.1.mTxtItems, i.Full := by
  rw [TxtBlock.read] at h
  cases htext : b.hasText with
  | false =>
    rw [htext, if_neg Bool.false_ne_true] at h
    rw [← Except.ok.inj h]
    refine ⟨⟨fun hsome => ?_, fun _ => rfl⟩, fun i hi => absurd hi List.not_mem_nil⟩
    rw [htext] at hsome
    cases hsome
  | true =>
    rw [htext, if_pos rfl] at h
    obtain ⟨⟨WordsRead, Header, mTxtItems, s₁⟩, htxt, h⟩ := exists_of_bind h
    obtain ⟨hwords, hfull⟩ := readTxt_words rfl (fun i hi => absurd hi List.not_mem_nil) htxt
    dsimp only at h hwords
    by_cases hlen : WordsRead = b.pdtbkln
    · rw [if_neg (not_not.mpr hlen)] at h
      obtain ⟨⟨mRelItems, mXRelItems, s₂⟩, _, h⟩ := exists_of_bind h
      rw [← Except.ok.inj h]
      refine ⟨⟨fun _ => hwords.symm.trans hlen, fun hnone => ?_⟩, hfull⟩
      rw [htext] at hnone
      cases hnone
    · rw [if_pos hlen] at h
      cases h

/-- The words copied so far and those to come fit into memory: no copy leaves it. -/
theorem flattenItems_fits {items : List TxtItem} (hfull : ∀ i ∈ items, i.Full)
    {aMemory : List (BitVec 8)} {Addr : Nat}
    (hfits : Addr + (items.map TxtItem.mNumberOfTextWords).sum * 8 ≤ aMemory.length) :
    ∃ r, flattenItems items aMemory Addr = .ok r := by
  induction items generalizing aMemory Addr with
  | nil => exact ⟨_, rfl⟩
  | cons Item items ih =>
    have hItem : Item.mContent.length = Item.mNumberOfTextWords := hfull Item List.mem_cons_self
    have hcontent : (Item.mContent.flatMap fun w => bytesBE 8 w.toNat).length =
        Item.mNumberOfTextWords * 8 := by
      rw [← hItem, List.length_flatMap]
      simp only [length_bytesBE, List.map_const', List.sum_replicate_nat]
    rw [List.map_cons, List.sum_cons] at hfits
    have hroom : Item.mNumberOfTextWords * 8 ≤
        (Item.mContent.flatMap fun w => bytesBE 8 w.toNat).length ∧
        Addr + Item.mNumberOfTextWords * 8 ≤ aMemory.length := ⟨by omega, by omega⟩
    rw [flattenItems, if_pos hroom]
    refine ih (fun i hi => hfull i (List.mem_cons_of_mem Item hi)) ?_
    rw [length_splice]
    · omega
    · rw [List.length_take]
      omega

theorem textOf_readBlocks {bs : List BlockDesc} {r : List TxtBlock × FileStream}
    (h : readBlocks bs s = .ok r) :
    List.Forall₂ (fun b t => TextOf b t ∧ ∀ i ∈ t.mTxtItems, i.Full) bs r.1 := by
  induction bs generalizing s r with
  | nil =>
    rw [← Except.ok.inj h]
    exact List.Forall₂.nil
  | cons Block blocks ih =>
    obtain ⟨⟨Txt, s₁⟩, hblock, h⟩ := exists_of_bind h
    obtain ⟨⟨txtBlocks, s₂⟩, hrest, h⟩ := exists_of_bind h
    rw [← Except.ok.inj h]
    exact List.Forall₂.cons (textOf_read hblock) (ih hrest)

/-- The loop for `MemorySize` ends with nothing smaller than what it has met. -/
theorem le_foldl_longer (bs : List BlockDesc) (n : Nat) :
    let m := bs.foldl (fun MemorySize b => if MemorySize < b.pdtbkln then b.pdtbkln else MemorySize) n
    n ≤ m ∧ ∀ b ∈ bs, b.pdtbkln ≤ m := by
  induction bs generalizing n with
  | nil => exact ⟨Nat.le_refl n, fun b hb => absurd hb List.not_mem_nil⟩
  | cons a bs ih =>
    obtain ⟨hstart, hall⟩ := ih (if n < a.pdtbkln then a.pdtbkln else n)
    have hn : n ≤ (if n < a.pdtbkln then a.pdtbkln else n) := by
      split <;> omega
    have ha : a.pdtbkln ≤ (if n < a.pdtbkln then a.pdtbkln else n) := by
      split <;> omega
    refine ⟨Nat.le_trans hn hstart, fun b hb => ?_⟩
    rcases List.mem_cons.mp hb with rfl | hrest
    · exact Nat.le_trans ha hstart
    · exact hall b hrest

theorem le_memorySize {obj : Obj} {b : BlockDesc} (hb : b ∈ obj.mBlocks) :
    b.pdtbkln ≤ memorySize obj :=
  (le_foldl_longer obj.mBlocks 0).2 b hb

/-- The text of a block that is there fits into a memory that holds the block. -/
theorem flatten_fits {b : BlockDesc} {t : TxtBlock} {n : Nat} (htext : TextOf b t)
    (hfull : ∀ i ∈ t.mTxtItems, i.Full) (hn : b.pdtbkln ≤ n) :
    ∃ r, t.flatten (List.replicate (n * 8) 0) 0 = .ok r := by
  refine flattenItems_fits hfull ?_
  rw [List.length_replicate]
  cases hhas : b.hasText with
  | false =>
    rw [htext.none hhas, List.map_nil, List.sum_nil]
    omega
  | true =>
    have hwords : (t.mTxtItems.map TxtItem.mNumberOfTextWords).sum = b.pdtbkln := htext.words hhas
    omega

theorem exists_left_of_mem {α β : Type} {R : α → β → Prop} {xs : List α} {ys : List β}
    (h : List.Forall₂ R xs ys) {y : β} (hy : y ∈ ys) : ∃ x ∈ xs, R x y := by
  induction h with
  | nil => exact absurd hy List.not_mem_nil
  | cons hxy _ ih =>
    rcases List.mem_cons.mp hy with rfl | hrest
    · exact ⟨_, List.mem_cons_self, hxy⟩
    · obtain ⟨x, hx, hR⟩ := ih hrest
      exact ⟨x, List.mem_cons_of_mem _ hx, hR⟩

theorem sound_readTables {s s' : FileStream} {obj : Obj} (h : readTables s = .ok (obj, s')) :
    Sound obj := by
  rw [readTables] at h
  dsimp only at h
  by_cases hpdt : (HdrDesc.read s).1.hdr_type = TableType.PDT
  · rw [if_neg (not_not.mpr hpdt)] at h
    obtain ⟨⟨PDTTable, s₁⟩, _, h⟩ := exists_of_bind h
    obtain ⟨⟨mTxtBlocks, s₂⟩, hblocks, h⟩ := exists_of_bind h
    have htext := textOf_readBlocks hblocks
    obtain ⟨hobj, _⟩ := Prod.mk.inj (Except.ok.inj h)
    rw [← hobj]
    refine ⟨List.Forall₂.imp (fun b t ht => ht.1) htext, fun t ht => ?_⟩
    obtain ⟨b, hb, htextof, hfull⟩ := exists_left_of_mem htext ht
    exact flatten_fits htextof hfull (le_memorySize hb)
  · rw [if_pos hpdt] at h
    cases h

/-! ## 3. Tables that are skipped -/

theorem skipRound_inl {s s' : FileStream} : skipRound s = .inl s' ↔
    isSkipped (HdrDesc.read s).1.hdr_type = true ∧
      (HdrDesc.read s).2.seekBy ((HdrDesc.read s).1.hdr_len * 8 - 8) = s' := by
  rw [skipRound]
  dsimp only
  split
  · next hskip => simp [hskip]
  · next hskip => simp [hskip]

theorem remaining_seekBy {off : Int} (hoff : 0 ≤ off) (hgood : s.good = true) :
    remaining (s.seekBy off) ≤ remaining s := by
  have hflags : s.eofbit = false ∧ s.failbit = false := by
    simpa [good] using hgood
  have htarget : 0 ≤ (s.pos : Int) + off := by omega
  rw [seekBy, seekTo, hflags.2, if_neg Bool.false_ne_true]
  cases hopen : s.isOpen with
  | false =>
    rw [Bool.false_and, if_neg Bool.false_ne_true, remaining_of_failbit rfl]
    exact Nat.zero_le _
  | true =>
    rw [Bool.true_and, if_pos (decide_eq_true htarget), remaining, remaining, if_pos hgood]
    split
    · exact Nat.sub_le_sub_left (by dsimp only; omega) s.content.length
    · exact Nat.zero_le _

/-- A table that is skipped and not empty takes something from the file. -/
theorem remaining_skip {s s' : FileStream} (h : skipRound s = .inl s') (hfull : ¬ EmptyTable s) :
    remaining s' < remaining s := by
  obtain ⟨hskip, hs'⟩ := skipRound_inl.mp h
  have htype : (HdrDesc.read s).1.hdr_type ≠ 0 := by
    intro hzero
    rw [hzero] at hskip
    exact absurd hskip (by decide)
  have hless := remaining_readHeader htype
  rw [← hs']
  cases hgood : (HdrDesc.read s).2.good with
  | false =>
    have hfail : (HdrDesc.read s).2.failbit = true := failbit_of_read (n := 8) hgood
    rw [remaining_of_failbit (failbit_seekBy hfail _)]
    exact Nat.lt_of_le_of_lt (Nat.zero_le _) hless
  | true =>
    have hlen : (HdrDesc.read s).1.hdr_len ≠ 0 := fun hempty => hfull ⟨hgood, hskip, hempty⟩
    exact Nat.lt_of_le_of_lt (remaining_seekBy (by omega) hgood) hless

theorem skipRound_empty (h : EmptyTable s) : skipRound s = .inl s := by
  refine skipRound_inl.mpr ⟨h.skipped, ?_⟩
  rw [h.empty]
  exact seekBy_read (by decide : 0 < 8) h.whole

theorem ends_of_skipsTo {s s' : FileStream} {r : HdrDesc × FileStream} (h : SkipsTo s s') :
    DoWhile.Ends skipRound s r ↔ DoWhile.Ends skipRound s' r := by
  induction h with
  | refl => rfl
  | tail _ hstep ih => rw [ih, DoWhile.ends_iff_next hstep]

/-! ## 4. The file -/

theorem finish_eq_ok {obj obj' : Obj} {Header : HdrDesc}
    (h : finish obj Header s = .ok obj') : obj' = obj := by
  rw [finish] at h
  split at h
  · cases h
  · split at h
    · exact (Except.ok.inj h).symm
    · cases h

/-- Reading does not end where an empty table is met. -/
theorem not_reads_of_emptyTable {file : List (BitVec 8)} {obj : Obj} {s s' : FileStream}
    (htables : readTables (ready file 0) = .ok (obj, s)) (hskips : SkipsTo s s')
    (hempty : EmptyTable s') : ¬ Reads file := by
  intro ⟨fuel, r, hread, _⟩
  rw [read, htables] at hread
  obtain ⟨x, hloop, _⟩ := Option.map_eq_some_iff.mp hread
  refine DoWhile.not_ends (· = s') (fun t ht => ⟨s', ?_, rfl⟩) rfl
    ((ends_of_skipsTo hskips).mp ⟨fuel, hloop⟩)
  rw [ht]
  exact skipRound_empty hempty

/-- Reading ends exactly where none of the tables that are skipped has the length 0. -/
theorem reads_iff (file : List (BitVec 8)) : Reads file ↔
    ∀ obj s, readTables (ready file 0) = .ok (obj, s) → ∀ s', SkipsTo s s' → ¬ EmptyTable s' := by
  constructor
  · intro hreads obj s htables s' hskips hempty
    exact not_reads_of_emptyTable htables hskips hempty hreads
  · intro hnone
    cases htables : readTables (ready file 0) with
    | error e =>
      refine ⟨0, .error e, ?_, fun obj hobj => by cases hobj⟩
      rw [read, htables]
    | ok done =>
      obtain ⟨obj, s⟩ := done
      obtain ⟨_, r, _, _, fuel, hloop⟩ := DoWhile.ends_of_variant skipRound (SkipsTo s) remaining
        (fun t t' ht hstep => ⟨ht.tail hstep, remaining_skip hstep (hnone obj s htables t ht)⟩)
        (Relation.ReflTransGen.refl)
      refine ⟨fuel, finish obj r.1 r.2, ?_, ?_⟩
      · rw [read, htables]
        dsimp only
        rw [hloop]
        rfl
      · intro obj' hobj
        rw [finish_eq_ok hobj]
        exact sound_readTables htables

/-- A program without blocks, and a symbol table of the length 0 behind it. -/
def emptySymbols : List (BitVec 8) :=
  bytesBE 8 (TableType.PDT <<< 57) ++ bytesBE 8 (10 <<< 48) ++ List.replicate 64 (0 : BitVec 8) ++
    bytesBE 8 (TableType.SMT <<< 57)

theorem readTables_emptySymbols : readTables (ready emptySymbols 0) =
    .ok (⟨[], [], [], []⟩, ready emptySymbols 80) := by
  have hheader : HdrDesc.read (ready emptySymbols 0) =
      (⟨[BitVec.ofNat 64 (15 <<< 57)]⟩, ready emptySymbols 8) := by
    rfl
  have htable : ProgDescTable.read (ready emptySymbols 8) =
      .ok (⟨BitVec.ofNat 64 (10 <<< 48) :: List.replicate 8 0, [], [], []⟩,
        ready emptySymbols 80) := by
    rfl
  have hblocks : ProgDescTable.pdtblsz
      ⟨BitVec.ofNat 64 (10 <<< 48) :: List.replicate 8 0, [], [], []⟩ = 0 := by
    rfl
  have hentries : ProgDescTable.pdtensz
      ⟨BitVec.ofNat 64 (10 <<< 48) :: List.replicate 8 0, [], [], []⟩ = 0 := by
    rfl
  have hexterns : ProgDescTable.pdtexsz
      ⟨BitVec.ofNat 64 (10 <<< 48) :: List.replicate 8 0, [], [], []⟩ = 0 := by
    rfl
  rw [readTables, hheader]
  dsimp only
  rw [if_neg (by decide), htable]
  dsimp only [Except.bind]
  rw [hblocks, hentries, hexterns]
  simp only [readArea_none]
  rfl

/-- The symbol table is read for ever. -/
theorem not_reads : ¬ Reads emptySymbols := by
  refine not_reads_of_emptyTable readTables_emptySymbols Relation.ReflTransGen.refl ⟨?_, ?_, ?_⟩
  · rfl
  · rfl
  · rfl

end ObjFile

end CraySim
