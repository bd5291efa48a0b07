/-
  Subject:   `AppendToFile` appends.

  A call fills the block the file ends in and takes a block at a time for the rest. Whenever the
  loop looks for a block, the blocks of the file are full; whenever it writes, the last one is
  empty. Every round that does not end the loop uses up a block of bytes.

  * `Full`, `Open` -- the two places of the loop,
  * `useAllocated_open` -- the bytes of a round,
  * `Appending.appendBlocks` -- the loop ends, with all bytes appended,
  * `HasFile.appendToFile` -- the call.
-/
import CraySim.MkfsContents

namespace CraySim

namespace Mkfs

open FirstFit ExtentFile DiskImage

/-! ## 1. The rounds -/

/-- All blocks of the file are full. -/
structure Full (st : AppendState) (exts : List Extent) (content : Chars) : Prop where
  block : st.currBlock = st.currEndBlock
  length : content.length = BSIZE * (blocks exts).length

/-- The last block is empty, and there are bytes for it. -/
structure Open (st : AppendState) (exts : List Extent) (content : Chars) : Prop where
  next : nextNumber st.currBlock = st.currEndBlock
  ne : st.currBlock ≠ st.currEndBlock
  block : (blocks exts)[content.length / BSIZE]? = some st.currBlock
  length : content.length + BSIZE = BSIZE * (blocks exts).length
  data : st.data ≠ []

/-- A number of bytes whose blocks can be counted in 32 bits. -/
def Countable (data : Chars) : Prop := data.length + BSIZE ≤ BSIZE * 2 ^ 32

/-- How many blocks the bytes need. -/
def blocksFor (data : Chars) : Nat := (data.length + BSIZE - 1) / BSIZE % 2 ^ 32

section rounds
variable {g : Geometry} {diskSize n rounds : Nat} {p : Pointer} {others : Nat → Prop}
  {image0 image : DiskImage} {exts : List Extent} {content : Chars} {st : AppendState}

theorem length_pos {data : Chars} (h : data ≠ []) : 0 < data.length := List.length_pos_of_ne_nil h

theorem blocksFor_pos {data : Chars} (hdata : data ≠ []) (hsmall : Countable data) :
    blocksFor data = (data.length + BSIZE - 1) / BSIZE ∧ 0 < blocksFor data := by
  have hpos := length_pos hdata
  have hsize : BSIZE = 4096 := rfl
  unfold Countable at hsmall
  unfold blocksFor
  rw [hsize] at hsmall ⊢
  omega

theorem useAllocated_full (h : st.currBlock = st.currEndBlock) (blocksNeeded : Nat) :
    image.useAllocated st blocksNeeded = (image, st, blocksNeeded) := by
  rw [useAllocated, if_pos h]

/-- The state behind the bytes of a round. -/
def behindBlock (st : AppendState) : AppendState :=
  { st with data := st.data.drop BSIZE, currBlock := nextNumber st.currBlock }

theorem drop_min (data : Chars) : data.drop (min BSIZE data.length) = data.drop BSIZE := by
  rcases Nat.le_total BSIZE data.length with h | h
  · rw [Nat.min_eq_left h]
  · rw [Nat.min_eq_right h, List.drop_length, List.drop_eq_nil_of_le h]

/-- **The bytes of a round**: the last block is filled, with all that is left or to its end. -/
theorem useAllocated_open (hne : st.currBlock ≠ st.currEndBlock)
    (hnext : nextNumber st.currBlock = st.currEndBlock) (blocksNeeded : Nat) :
    image.useAllocated st blocksNeeded =
      (image.setBlock st.currBlock
        (copyBytes (image.mStorage st.currBlock) 0 (st.data.take BSIZE)),
        behindBlock st, (blocksNeeded + (2 ^ 32 - 1)) % 2 ^ 32) := by
  have htake : st.data.take (min BSIZE st.data.length) = st.data.take BSIZE :=
    List.take_eq_take_iff.mpr (by omega)
  rw [useAllocated, if_neg hne]
  simp only [htake, drop_min]
  split
  · rfl
  · exact useAllocated_full hnext _

/-- Where the calls of the loop may end: with all bytes appended, or with an error of the map or of
    the inode. There is no error where the bytes fit. -/
def Outcome (g : Geometry) (diskSize : Nat) (p : Pointer) (others : Nat → Prop)
    (image0 : DiskImage) (content : Chars) (fits : Prop)
    (r : Except MkfsExn AppendState × DiskImage) : Prop :=
  match r with
  | (.ok st, image) => ∃ exts, Appending g diskSize p others image0 image exts content ∧
      st.totalBlocks = (blocks exts).length ∧ Filled exts content.length ∧
        (fits → Contiguous g image exts)
  | (.error e, _) => e ≠ .undefinedBehaviour ∧ ¬ fits

/-! ## 2. The loop -/

theorem appendBlocks_nil (h : st.data = []) (image : DiskImage) :
    appendBlocks p rounds st image = (.ok st, image) := by
  cases rounds with
  | zero =>
    unfold appendBlocks
    rw [if_pos h]
    rfl
  | succ rounds =>
    unfold appendBlocks
    rw [if_pos h]
    rfl

theorem appendBlocks_succ (h : st.data ≠ []) {image' : DiskImage} {st' : AppendState}
    {blocksNeeded : Nat}
    (hused : image.useAllocated st (blocksFor st.data) = (image', st', blocksNeeded)) :
    appendBlocks p (rounds + 1) st image =
      if blocksNeeded = 0 then appendBlocks p rounds st' image'
      else (do
        let newBlock := (← getFreeBlock) % 2 ^ 32
        let st'' ← DiskImage.nextBlock p st' newBlock
        appendBlocks p rounds st'') image' := by
  rw [appendBlocks, if_neg h, Run.bind_apply_ok (Run.get_apply image)]
  unfold blocksFor at hused
  rw [hused, Run.bind_apply_ok (Run.modify_apply _ image)]
  split
  · rfl
  · rfl

/-- **A block is taken when all are full.** -/
theorem Appending.acquire (h : Appending g diskSize p others image0 image exts content)
    (hp : g.iNodeStart < p.block ∧ p.block < g.dataStart) (hst : Placed st exts)
    (hfull : Full st exts content) (hdata : st.data ≠ []) {content' : Chars} {fits : Prop}
    (hfits : fits → Contiguous g image exts ∧ image.usedBlocks g < g.capacity)
    (hrest : ∀ st' image' exts', Appending g diskSize p others image0 image' exts' content →
      Placed st' exts' → Open st' exts' content → st'.data = st.data →
        image'.usedBlocks g = image.usedBlocks g + 1 → (fits → Contiguous g image' exts') →
          Outcome g diskSize p others image0 content' fits
            (appendBlocks p rounds st' image')) :
    Outcome g diskSize p others image0 content' fits ((do
      let newBlock := (← getFreeBlock) % 2 ^ 32
      let st' ← DiskImage.nextBlock p st newBlock
      appendBlocks p rounds st') image) := by
  have hget := getFreeBlock_eq h.formatted
  rcases hfound : firstFree (image.mapBit g.mapStart) g.capacity with - | n
  · rw [hfound] at hget
    rw [Run.bind_apply_error hget]
    refine ⟨(fun he => by cases he), fun hall => ?_⟩
    obtain ⟨n, hsome⟩ := exists_firstFree_of_count (hfits hall).2
    rw [hfound] at hsome
    cases hsome
  · rw [hfound] at hget
    obtain ⟨hn, -, -⟩ := h.ledger.fresh hfound
    have hnext := nextNumber_eq hn
    have hsmall : n % 2 ^ 32 = n := by
      unfold nextNumber at hnext
      omega
    rw [Run.bind_apply_ok hget, hsmall]
    rcases h.nextBlock hp hst hfound with ⟨herr, hnot⟩ | ⟨idx, image', hrun, happ, hplaced⟩
    · rw [Run.bind_apply_error herr]
      exact ⟨(fun he => by cases he), fun hall => hnot (hfits hall).1⟩
    · rw [Run.bind_apply_ok hrun]
      have hused : image'.usedBlocks g = image.usedBlocks g + 1 :=
        h.toOwning.usedBlocks_eq happ.toOwning (blocks_grow exts n)
      have hblocks := congrArg List.length (blocks_grow exts n)
      rw [List.length_append, List.length_singleton] at hblocks
      have hlength := hfull.length
      refine hrest _ image' _ happ hplaced ⟨rfl, ?_, ?_, ?_, hdata⟩ rfl hused fun hall => ?_
      · show n ≠ nextNumber n
        omega
      · rw [blocks_grow, hlength, Nat.mul_div_cancel_left _ (by decide)]
        exact List.getElem?_concat_length
      · rw [hblocks, hlength, Nat.mul_add, Nat.mul_one]
      · rw [← h.ledger.usedBlocks_eq hfound]
        exact (hfits hall).1.grow hused

theorem Placed.behindBlock (h : Placed st exts) (hexts : exts ≠ []) :
    Placed (behindBlock st) exts :=
  ⟨h.total, fun hnil => absurd hnil hexts, h.last⟩

theorem Open.exts_ne (h : Open st exts content) : exts ≠ [] := by
  rintro rfl
  have hblock := h.block
  cases hblock

/-- **The loop from an empty last block**: it ends, with all bytes appended. -/
theorem Appending.appendBlocks_open (hp : g.iNodeStart < p.block ∧ p.block < g.dataStart) :
    ∀ {rounds : Nat} {st : AppendState} {image : DiskImage} {exts : List Extent}
      {content : Chars} {fits : Prop}, Appending g diskSize p others image0 image exts content →
      Placed st exts → Open st exts content → Countable st.data → st.data.length ≤ rounds →
      (fits → Contiguous g image exts ∧
        image.usedBlocks g + (st.data.length - 1) / BSIZE ≤ g.capacity) →
        Outcome g diskSize p others image0 (content ++ st.data) fits
          (appendBlocks p rounds st image) := by
  intro rounds
  induction rounds with
  | zero =>
    intro st image exts content fits _ _ hopen _ hrounds _
    have hpos := length_pos hopen.data
    omega
  | succ rounds ih =>
    intro st image exts content fits h hst hopen hsmall hrounds hfits
    have hsize : BSIZE = 4096 := rfl
    have hpos := length_pos hopen.data
    have hlength := hopen.length
    have hmod : content.length % BSIZE = 0 := by
      rw [hsize] at hlength ⊢
      omega
    obtain ⟨hneed, hneed0⟩ := blocksFor_pos hopen.data hsmall
    -- the bytes of the round are in the file behind it
    have hfit : content.length % BSIZE + (st.data.take BSIZE).length ≤ BSIZE := by
      rw [hmod, List.length_take]
      omega
    have hput := h.put hp.2 hopen.block hfit
    rw [hmod] at hput
    have hused := h.toOwning.usedBlocks_eq hput.toOwning (List.append_nil _).symm
    rw [List.length_nil, Nat.add_zero] at hused
    have hput_fits : fits → Contiguous g (image.setBlock st.currBlock
        (copyBytes (image.mStorage st.currBlock) 0 (st.data.take BSIZE))) exts :=
      fun hall => (hfits hall).1.congr hused
    rw [appendBlocks_succ hopen.data (useAllocated_open hopen.ne hopen.next _)]
    have hdrop : (st.data.drop BSIZE).length = st.data.length - BSIZE := List.length_drop
    have hsplit : content ++ st.data = content ++ st.data.take BSIZE ++ st.data.drop BSIZE := by
      rw [List.append_assoc, List.take_append_drop]
    have hlt : blocksFor st.data < 2 ^ 32 := Nat.mod_lt _ (by decide)
    have hcount : (blocksFor st.data + (2 ^ 32 - 1)) % 2 ^ 32 = blocksFor st.data - 1 := by omega
    rw [hcount]
    by_cases hdone : st.data.length ≤ BSIZE
    · -- the last bytes
      have hnil : st.data.drop BSIZE = [] := List.drop_eq_nil_of_le hdone
      rw [if_pos (by rw [hneed, hsize]; omega), appendBlocks_nil hnil, hsplit, hnil,
        List.append_nil]
      refine ⟨exts, hput, hst.total, ⟨?_, ?_⟩, hput_fits⟩
      · rw [List.length_append, List.length_take]
        omega
      · rw [List.length_append, List.length_take]
        omega
    · -- the block is full
      have hmore : st.data.drop BSIZE ≠ [] := by
        intro hnil
        rw [hnil, List.length_nil] at hdrop
        omega
      have hfull : Full (behindBlock st) exts (content ++ st.data.take BSIZE) := by
        refine ⟨hopen.next, ?_⟩
        rw [List.length_append, List.length_take]
        omega
      rw [if_neg (by rw [hneed, hsize]; omega), hsplit]
      refine hput.acquire hp (hst.behindBlock hopen.exts_ne) hfull hmore
        (fun hall => ⟨hput_fits hall, ?_⟩)
        fun st' image' exts' h' hst' hopen' hdata' hused' hnext => ?_
      · have hroom := (hfits hall).2
        rw [hused]
        rw [hsize] at hroom hdone
        omega
      have hdata : st'.data = st.data.drop BSIZE := hdata'
      rw [← hdata]
      refine ih h' hst' hopen' ?_ ?_ fun hall => ⟨hnext hall, ?_⟩
      · unfold Countable at hsmall ⊢
        rw [hdata, hdrop]
        omega
      · rw [hdata, hdrop]
        omega
      · have hroom := (hfits hall).2
        rw [hused', hused, hdata, hdrop]
        rw [hsize] at hroom hdone ⊢
        omega

/-- **The loop from full blocks.** -/
theorem Appending.appendBlocks_full (h : Appending g diskSize p others image0 image exts content)
    (hp : g.iNodeStart < p.block ∧ p.block < g.dataStart) (hst : Placed st exts)
    (hfull : Full st exts content) (hsmall : Countable st.data) {fits : Prop}
    (hfits : fits → Contiguous g image exts ∧
      image.usedBlocks g + (st.data.length + BSIZE - 1) / BSIZE ≤ g.capacity) :
    Outcome g diskSize p others image0 (content ++ st.data) fits
      (appendBlocks p (st.data.length + 1) st image) := by
  by_cases hdata : st.data = []
  · rw [appendBlocks_nil hdata, hdata, List.append_nil]
    have hlength := hfull.length
    have hsize : BSIZE = 4096 := rfl
    exact ⟨exts, h, hst.total, ⟨by omega, by omega⟩, fun hall => (hfits hall).1⟩
  · have hsize : BSIZE = 4096 := rfl
    have hpos := length_pos hdata
    rw [appendBlocks_succ hdata (useAllocated_full hfull.block _),
      if_neg (Nat.ne_of_gt (blocksFor_pos hdata hsmall).2)]
    refine h.acquire hp hst hfull hdata (fun hall => ⟨(hfits hall).1, ?_⟩)
      fun st' image' exts' h' hst' hopen hdata' hused hnext => ?_
    · have hroom := (hfits hall).2
      rw [hsize] at hroom
      omega
    · rw [← hdata'] at hsmall hfits hpos ⊢
      refine Appending.appendBlocks_open hp h' hst' hopen hsmall (Nat.le_refl _)
        fun hall => ⟨hnext hall, ?_⟩
      have hroom := (hfits hall).2
      rw [hused]
      rw [hsize] at hroom ⊢
      omega

/-! ## 3. The block the file ends in -/

/-- The variables in front of the loop. -/
def atEnd (data : Chars) (e : FileEnd) (blk cnt : Nat) : AppendState where
  data := data
  blockDescIdx := e.blockDescIdx
  currBlock := (blk + e.bytesInFileLeft / BSIZE % 2 ^ 32) % 2 ^ 32
  currBlockCnt := cnt
  currEndBlock := (blk + cnt) % 2 ^ 32
  totalBlocks := e.totalBlocks + cnt

/-- The bytes that find room in the block the file ends in. -/
def roomLeft (left : Nat) (data : Chars) : Nat := min (BSIZE - left % BSIZE) data.length

/-- The variables behind that block. -/
def behindRoom (st : AppendState) (left : Nat) : AppendState :=
  { st with data := st.data.drop (roomLeft left st.data), currBlock := nextNumber st.currBlock }

theorem fillLast_full (h : st.currBlock = st.currEndBlock) (left : Nat) :
    fillLast st left image = (.ok st, image) := by
  unfold fillLast
  rw [if_pos h]
  rfl

theorem fillLast_room (h : st.currBlock ≠ st.currEndBlock) (left : Nat) :
    fillLast st left image = (.ok (behindRoom st left),
      image.setBlock st.currBlock (copyBytes (image.mStorage st.currBlock) (left % BSIZE)
        (st.data.take (roomLeft left st.data)))) := by
  unfold fillLast
  rw [if_neg h]
  rfl

/-- A file and its blocks, as the call finds them. -/
theorem HasFile.appending (h : HasFile image p exts content)
    (hown : Owning g diskSize image others exts) :
    Appending g diskSize p others image image exts content :=
  ⟨hown, h.extents, h.pos, h.holds, fun _ _ _ _ => rfl, fun _ _ => rfl, fun _ _ _ => rfl⟩

/-- A file without a block has no bytes; the bytes of the others can be counted. -/
theorem Filled.eq_zero (h : Filled [] n) : n = 0 := by
  have hle := h.1
  rw [blocks_nil, List.length_nil, Nat.mul_zero] at hle
  omega

theorem Filled.lt (h : Filled exts n) (hcount : (blocks exts).length < 2 ^ 32) : n < 2 ^ 64 := by
  have hle := h.1
  have hsize : BSIZE = 4096 := rfl
  rw [hsize] at hle
  omega

/-- In front of the loop the blocks of the file are full, or there is nothing left to do. -/
def InFrontOfLoop (g : Geometry) (diskSize : Nat) (p : Pointer) (others : Nat → Prop)
    (image0 image : DiskImage) (exts : List Extent) (st : AppendState) (content data : Chars) :
    Prop :=
  ∃ k, st.data = data.drop k ∧
    Appending g diskSize p others image0 image exts (content ++ data.take k) ∧ Placed st exts ∧
      (Full st exts (content ++ data.take k) ∨
        st.data = [] ∧ Filled exts (content ++ data.take k).length)

/-- **The last block has room.** -/
theorem Appending.fillLast (h : Appending g diskSize p others image0 image exts content)
    (hp : p.block < g.dataStart) (hst : Placed st exts) {left : Nat}
    (hne : st.currBlock ≠ st.currEndBlock) (hnext : nextNumber st.currBlock = st.currEndBlock)
    (hblock : (blocks exts)[content.length / BSIZE]? = some st.currBlock)
    (hmod : left % BSIZE = content.length % BSIZE) (hfilled : Filled exts content.length)
    (hroom : content.length < BSIZE * (blocks exts).length) :
    ∃ image', fillLast st left image = (.ok (behindRoom st left), image') ∧
      InFrontOfLoop g diskSize p others image0 image' exts (behindRoom st left) content st.data := by
  have hsize : BSIZE = 4096 := rfl
  have hleft : roomLeft left st.data = min (BSIZE - content.length % BSIZE) st.data.length := by
    unfold roomLeft
    rw [hmod]
  have htake : (st.data.take (roomLeft left st.data)).length = roomLeft left st.data := by
    rw [List.length_take, hleft]
    omega
  have hfit : content.length % BSIZE + (st.data.take (roomLeft left st.data)).length ≤ BSIZE := by
    rw [htake, hleft, hsize]
    omega
  have hput := h.put hp hblock hfit
  rw [← hmod] at hput
  have hexts : exts ≠ [] := by
    rintro rfl
    cases hblock
  refine ⟨_, fillLast_room hne left, roomLeft left st.data, rfl, hput,
    ⟨hst.total, fun hnil => absurd hnil hexts, hst.last⟩, ?_⟩
  obtain ⟨hle, hlt⟩ := hfilled
  by_cases hall : st.data.length ≤ BSIZE - content.length % BSIZE
  · refine Or.inr ⟨List.drop_eq_nil_of_le (by rw [hleft]; omega), ?_⟩
    unfold Filled
    rw [List.length_append, htake, hleft]
    rw [hsize] at hle hlt hroom hall ⊢
    omega
  · refine Or.inl ⟨hnext, ?_⟩
    rw [List.length_append, htake, hleft]
    rw [hsize] at hle hlt hroom hall ⊢
    omega

theorem HasFile.fillLast_nil (h : HasFile image p [] content)
    (hown : Owning g diskSize image others []) (data : Chars) :
    ∃ st' image', fillLast (atEnd data ⟨0, 0, 0⟩ 0 0) 0 image = (.ok st', image') ∧
      InFrontOfLoop g diskSize p others image image' [] st' content data := by
  have hlen := h.filled.eq_zero
  refine ⟨_, image, fillLast_full rfl 0, 0, rfl, ?_,
    ⟨rfl, fun _ => ⟨rfl, rfl, rfl, rfl⟩, fun init last heq => absurd heq (by simp)⟩, Or.inl ?_⟩
  · rw [List.take_zero, List.append_nil]
    exact h.appending hown
  · rw [List.take_zero, List.append_nil]
    exact ⟨rfl, hlen⟩

theorem HasFile.fillLast_concat {init : List Extent} {last : Extent} {left : Nat}
    (h : HasFile image p (init ++ [last]) content)
    (hown : Owning g diskSize image others (init ++ [last])) (hp : p.block < g.dataStart)
    (data : Chars) (hleft : left = content.length - BSIZE * (blocks init).length) :
    ∃ st' image', fillLast
        (atEnd data ⟨left, init.length, (blocks init).length⟩ last.first last.cnt) left image =
          (.ok st', image') ∧
      InFrontOfLoop g diskSize p others image image' (init ++ [last]) st' content data := by
  have hsize : BSIZE = 4096 := rfl
  have hcnt : 0 < last.cnt := h.pos last (by simp)
  have hlen : (blocks (init ++ [last])).length = (blocks init).length + last.cnt := by
    rw [blocks_concat, List.length_append, Extent.length_blocks]
  obtain ⟨hle, hlt⟩ := h.filled
  rw [hlen, hsize] at hle hlt
  -- the numbers of the extent do not wrap around
  have hnumbers : g.capacity < 2 ^ 32 := g.numbers
  have hlast : last.first + (last.cnt - 1) < g.capacity := by
    refine (hown.place _ ?_).2
    rw [blocks_concat]
    exact List.mem_append_right _ (List.mem_range'_1.mpr ⟨by omega, by omega⟩)
  have hend : (last.first + last.cnt) % 2 ^ 32 = last.first + last.cnt := by omega
  rw [hsize] at hleft
  have hcurr : (last.first + left / BSIZE % 2 ^ 32) % 2 ^ 32 = last.first + left / BSIZE := by
    rw [hsize]
    omega
  generalize hst : atEnd data ⟨left, init.length, (blocks init).length⟩ last.first last.cnt = st
  have hdata : st.data = data := by rw [← hst]; rfl
  have hblk : st.currBlock = last.first + left / BSIZE := by rw [← hst]; exact hcurr
  have hendBlk : st.currEndBlock = last.first + last.cnt := by rw [← hst]; exact hend
  have hplaced : Placed st (init ++ [last]) := by
    refine ⟨?_, fun hnil => absurd hnil (by simp), fun init' last' heq => ?_⟩
    · rw [← hst, hlen]
      rfl
    · obtain ⟨rfl, hl⟩ := List.append_inj' heq rfl
      obtain rfl := List.singleton_inj.mp hl
      exact ⟨by rw [← hst]; rfl, hendBlk, by rw [← hst]; exact hcnt⟩
  rw [← hdata]
  by_cases hfull : left / BSIZE = last.cnt
  · -- the last block is full
    have hblock : st.currBlock = st.currEndBlock := by rw [hblk, hendBlk, hfull]
    refine ⟨st, image, fillLast_full hblock left, 0, rfl, ?_, hplaced, Or.inl ⟨hblock, ?_⟩⟩
    · rw [List.take_zero, List.append_nil]
      exact h.appending hown
    · rw [List.take_zero, List.append_nil, hlen, hsize]
      rw [hsize] at hfull
      omega
  · -- it has room
    have hidx : left / BSIZE = last.cnt - 1 ∧
        content.length / BSIZE = (blocks init).length + (last.cnt - 1) := by
      rw [hsize] at hfull ⊢
      omega
    have hne : st.currBlock ≠ st.currEndBlock := by
      rw [hblk, hendBlk]
      omega
    have hnext : nextNumber st.currBlock = st.currEndBlock := by
      rw [hblk, hendBlk, hidx.1, nextNumber_eq hlast]
      omega
    have hblock : (blocks (init ++ [last]))[content.length / BSIZE]? = some st.currBlock := by
      rw [blocks_concat, hblk, hidx.1, hidx.2, List.getElem?_append_right (Nat.le_add_right _ _),
        Nat.add_sub_cancel_left]
      unfold Extent.blocks
      rw [List.getElem?_range' (by omega), Nat.one_mul]
    have hmod : left % BSIZE = content.length % BSIZE := by
      rw [hsize]
      omega
    have hroom : content.length < BSIZE * (blocks (init ++ [last])).length := by
      rw [hlen, hsize]
      rw [hsize] at hfull
      omega
    obtain ⟨image', hrun, hfront⟩ := (h.appending hown).fillLast hp hplaced hne hnext hblock hmod
      h.filled hroom
    exact ⟨_, image', hrun, hfront⟩

/-! ## 4. The call -/

/-- The fields that are assigned behind the loop. -/
def resize (image : DiskImage) (p : Pointer) (totalBlocks newSize : Nat) : DiskImage :=
  (image.writeINode p .cdi_blocks totalBlocks).writeINode p .cdi_size newSize

theorem resize_of_ne {totalBlocks newSize b : Nat} (h : b ≠ p.block) :
    (resize image p totalBlocks newSize).mStorage b = image.mStorage b := by
  unfold resize
  rw [writeINode_of_ne h, writeINode_of_ne h]

theorem writeINode_word {f : InodeField} {v w : Nat} (h : w ≠ p.ofs + f.field.tOfs) :
    (image.writeINode p f v).mStorage p.block w = image.mStorage p.block w := by
  unfold writeINode write
  rw [setBlock_self, IntField.assign_of_ne]
  exact h

theorem resize_word {totalBlocks newSize w : Nat} (h : w < p.ofs ∨ p.ofs + 16 ≤ w) :
    (resize image p totalBlocks newSize).mStorage p.block w = image.mStorage p.block w := by
  have hsize : InodeField.cdi_size.field.tOfs = 3 := rfl
  have hblocks : InodeField.cdi_blocks.field.tOfs = 5 := rfl
  unfold resize
  rw [writeINode_word (by omega), writeINode_word (by omega)]

/-- **The file behind the call.** -/
theorem Appending.resize (h : Appending g diskSize p others image0 image exts content)
    (hp : g.iNodeStart < p.block ∧ p.block < g.dataStart)
    (hmode : image0.readINode p .cdi_mode &&& IFMT = IFREG) (hfilled : Filled exts content.length) :
    Owning g diskSize (resize image p (blocks exts).length content.length) others exts ∧
      HasFile (Mkfs.resize image p (blocks exts).length content.length) p exts content ∧
      OnlyNode g p exts image0 (Mkfs.resize image p (blocks exts).length content.length) := by
  have hcount := h.length_le
  have hsize := hfilled.lt hcount
  have hadmin : ∀ b, g.Administers b → b ≠ p.block := by
    rintro b hb rfl
    exact Geometry.not_administers (Nat.le_of_lt hp.1) hb
  have hfile : ∀ b ∈ blocks exts, b ≠ p.block := fun b hb =>
    Nat.ne_of_gt (Nat.lt_of_lt_of_le hp.2 (h.place b hb).1)
  have hmode' : image.readINode p .cdi_mode = image0.readINode p .cdi_mode :=
    congrArg BitVec.toNat (IntField.get_congr (h.words _ (Or.inl (Nat.add_lt_add_left (by decide)
      p.ofs))))
  refine ⟨⟨h.formatted.congr (resize_of_ne ?_), h.ledger.congr fun b hb =>
    resize_of_ne (hadmin b hb), h.apart, h.nodup, h.place⟩, ⟨?_, h.extents.congr fun j _ =>
      resize_word (by omega), h.pos, ?_, ?_, hfilled, h.holds.congr (by decide) fun b hb o _ => ?_⟩,
    fun b hb hpb hnot => ?_, fun w hw => ?_, fun f h1 h2 => ?_⟩
  · exact Nat.ne_of_lt (Nat.lt_trans g.super_lt_iNode hp.1)
  · unfold Mkfs.resize
    rw [readINode_writeINode_of_apart (by decide), readINode_writeINode_of_apart (by decide),
      hmode', hmode]
  · exact readINode_writeINode hsize hsize
  · unfold Mkfs.resize
    rw [readINode_writeINode_of_apart (by decide), readINode_writeINode ?_ ?_]
    · exact Nat.lt_trans hcount (by decide)
    · exact Nat.lt_trans hcount (by decide)
  · unfold bytes
    rw [resize_of_ne (hfile b hb)]
  · rw [resize_of_ne hpb]
    exact h.beside b hb hpb hnot
  · rw [resize_word (by omega)]
    exact h.words w (by omega)
  · rw [← h.counters f h1 h2]
    exact congrArg BitVec.toNat (read_congr (p := ⟨g.dynamicBlock, 0⟩)
      (resize_of_ne (hadmin _ (Or.inr rfl))) f)

/-- The blocks that some bytes cover. -/
def cover (len : Nat) : Nat := (len + BSIZE - 1) / BSIZE

/-- The map has the blocks for a file of this length, and they make one run. -/
def FitsFile (g : Geometry) (image : DiskImage) (exts : List Extent) (len : Nat) : Prop :=
  Contiguous g image exts ∧ image.usedBlocks g + cover len ≤ g.capacity + (blocks exts).length

theorem Filled.cover_eq (h : Filled exts n) : cover n = (blocks exts).length := by
  obtain ⟨hle, hlt⟩ := h
  have hsize : BSIZE = 4096 := rfl
  unfold cover
  rw [hsize] at hle hlt ⊢
  omega

/-- **`AppendToFile`**: the bytes are behind those the file had, and nothing else changes; or the
    map has no block or the inode no extent left. -/
theorem HasFile.appendToFile {i : Nat} (h : HasFile image (g.iNode i) exts content)
    (hown : Owning g diskSize image others exts) (hi : g.HasINode i) {aINode : BitVec 32}
    (hidx : aINode.toNat = i) {data : Chars} (hsmall : Countable data) :
    (∃ e image', DiskImage.appendToFile aINode data image = (.error e, image') ∧
        e ≠ .undefinedBehaviour ∧ ¬ FitsFile g image exts (content ++ data).length) ∨
      ∃ image' exts', DiskImage.appendToFile aINode data image = (.ok (), image') ∧
        Owning g diskSize image' others exts' ∧
        HasFile image' (g.iNode i) exts' (content ++ data) ∧
        OnlyNode g (g.iNode i) exts' image image' ∧
        (FitsFile g image exts (content ++ data).length → Contiguous g image' exts') := by
  have hp := hi.between
  -- the walk, and the block the file ends in
  obtain ⟨e, blk, cnt, st, image1, hwalk, hblk, hcnt, hlast, hfront⟩ : ∃ e blk cnt st image1,
      image.walkExtents (g.iNode i) ⟨content.length, 0, 0⟩ = .ok e ∧
        image.readExtent (g.iNode i) e.blockDescIdx .blk = blk ∧
        image.readExtent (g.iNode i) e.blockDescIdx .nblks = cnt ∧
        fillLast (atEnd data e blk cnt) e.bytesInFileLeft image = (.ok st, image1) ∧
        InFrontOfLoop g diskSize (g.iNode i) others image image1 exts st content data := by
    rcases List.eq_nil_or_concat' exts with rfl | ⟨init, last, rfl⟩
    · have hlen := h.filled.eq_zero
      obtain ⟨hblk, hcnt⟩ := h.extents.none rfl
      obtain ⟨st, image1, hlast, hfront⟩ := h.fillLast_nil hown data
      exact ⟨⟨0, 0, 0⟩, 0, 0, st, image1, by rw [hlen]; exact walk_nil _ _, hblk, hcnt, hlast,
        hfront⟩
    · have hext := h.extents.extent init.length (by simp)
      rw [List.getElem_concat_length rfl] at hext
      obtain ⟨st, image1, hlast, hfront⟩ := h.fillLast_concat hown hp.2 data rfl
      exact ⟨_, last.first, last.cnt, st, image1,
        h.extents.walk (h.pos last (by simp)) h.filled, hext.1, hext.2, hlast, hfront⟩
  obtain ⟨k, hdata, happ, hst, hplace⟩ := hfront
  have hcounted : image1.readINode (g.iNode i) .cdi_blocks = st.totalBlocks := by
    rw [hst.total, ← h.blockCnt]
    exact congrArg BitVec.toNat (IntField.get_congr (happ.words _ (Or.inl (Nat.add_lt_add_left
      (by decide) _))))
  -- the loop
  have hsplit : content ++ data = content ++ data.take k ++ st.data := by
    rw [hdata, List.append_assoc, List.take_append_drop]
  have hused := hown.usedBlocks_eq happ.toOwning (List.append_nil _).symm
  rw [List.length_nil, Nat.add_zero] at hused
  have hloop : Outcome g diskSize (g.iNode i) others image (content ++ data)
      (FitsFile g image exts (content ++ data).length)
      (appendBlocks (g.iNode i) (st.data.length + 1) st image1) := by
    rw [hsplit]
    rcases hplace with hfull | ⟨hnil, hfilled⟩
    · refine happ.appendBlocks_full hp hst hfull ?_ fun hall => ⟨hall.1.congr hused, ?_⟩
      · unfold Countable at hsmall ⊢
        rw [hdata, List.length_drop]
        omega
      · have hroom := hall.2
        have hlength := hfull.length
        have hsize : BSIZE = 4096 := rfl
        rw [List.length_append, hlength] at hroom
        rw [hused]
        unfold cover at hroom
        rw [hsize] at hroom ⊢
        omega
    · rw [appendBlocks_nil hnil, hnil, List.append_nil]
      exact ⟨exts, happ, hst.total, hfilled, fun hall => hall.1.congr hused⟩
  -- the call, as a whole
  have hcall : DiskImage.appendToFile aINode data image =
      (do
        let st ← appendBlocks (g.iNode i) (st.data.length + 1) st
        Run.modify fun image => image.writeINode (g.iNode i) .cdi_blocks st.totalBlocks
        Run.modify fun image => image.writeINode (g.iNode i) .cdi_size
          ((content.length + data.length) % 2 ^ 64) : Run MkfsExn DiskImage Unit) image1 := by
    unfold DiskImage.appendToFile
    rw [Run.bind_apply_ok (Run.get_apply image), hidx, hown.formatted.getINode_eq, h.size,
      Run.bind_apply_ok (crayAssert_true (Or.inr h.mode) image), hwalk]
    simp only
    rw [hblk, hcnt]
    refine (Run.bind_apply_ok hlast).trans ?_
    rw [Run.bind_apply_ok (Run.get_apply image1),
      Run.bind_apply_ok (crayAssert_true (Or.inr hcounted) image1)]
  rw [hcall]
  rcases hrun : appendBlocks (g.iNode i) (st.data.length + 1) st image1 with
    ⟨e | st', image'⟩
  · rw [hrun] at hloop
    rw [Run.bind_apply_error hrun]
    exact Or.inl ⟨e, image', rfl, hloop⟩
  · rw [hrun] at hloop
    obtain ⟨exts', happ', htotal, hfilled, hnext⟩ := hloop
    rw [Run.bind_apply_ok hrun]
    obtain ⟨hown', hfile, honly⟩ := happ'.resize hp h.mode hfilled
    have hsame := happ'.toOwning.usedBlocks_eq hown' (List.append_nil _).symm
    refine Or.inr ⟨_, exts', ?_, hown', hfile, honly, fun hall => (hnext hall).congr hsame⟩
    have hlen := hfilled.lt happ'.length_le
    rw [List.length_append] at hlen ⊢
    rw [Nat.mod_eq_of_lt hlen, htotal]
    rfl

end rounds

end Mkfs

end CraySim
