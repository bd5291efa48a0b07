/-
  Subject:   Directories and files of an image, with the blocks they own.

  * `HasDirectory` -- a directory: its inode, its block, and the entries there,
  * `HasDirectory.first`, `HasDirectory.more` -- an entry in a new block, or in the block there is,
  * `HasDirectory.appendToDir` -- `AppendToDir` appends,
  * `Node`, `HasNode` -- directories and files,
  * `HasNode.congr` -- what other nodes do to a node.
-/
import CraySim.MkfsAppendFile

namespace CraySim

namespace Mkfs

open FirstFit ExtentFile DiskImage

/-! ## 1. Directories -/

/-- **A directory**: without a block as long as it has no entry, with one block then. -/
structure HasDirectory (image : DiskImage) (p : Pointer) (exts : List Extent)
    (entries : List Entry) : Prop where
  mode : image.readINode p .cdi_mode &&& IFMT = IFDIR
  nblks : image.readINode p (.cdi_addr 0 .nblks) = (blocks exts).length
  size : image.readINode p .cdi_size = (blocks exts).length * BSIZE
  block : (entries = [] ∧ exts = [] ∧ image.readINode p (.cdi_addr 0 .blk) = 0) ∨
    ∃ b init e, exts = [⟨b, 1⟩] ∧ entries = init ++ [e] ∧
      image.readINode p (.cdi_addr 0 .blk) = b ∧ Packed (image.mStorage b) init e

theorem Packed.congr {block block' : Words} {init : List Entry} {e : Entry}
    (h : Packed block init e) (hsame : ∀ w < cBlockSize, block' w = block w) :
    Packed block' init e := by
  have hfits := h.fits
  have hthree := e.three_le_words
  refine ⟨h.tight.congr fun w _ hw => hsame w (by omega),
    h.entry.congr fun w hw => hsame _ ?_, hfits, ?_⟩
  · have hw' : w < e.words := hw
    omega
  · rw [← h.record]
    exact congrArg BitVec.toNat (IntField.get_congr (hsame _ (by
      have hofs : cd_reclen.tOfs = 2 := rfl
      omega)))

theorem HasDirectory.congr {image image' : DiskImage} {p : Pointer} {exts : List Extent}
    {entries : List Entry} (h : HasDirectory image p exts entries)
    (hsame : SameINode p image image')
    (hblocks : ∀ b ∈ blocks exts, ∀ w < cBlockSize, image'.mStorage b w = image.mStorage b w) :
    HasDirectory image' p exts entries := by
  refine ⟨?_, ?_, ?_, ?_⟩
  · rw [hsame.readINode, h.mode]
  · rw [hsame.readINode, h.nblks]
  · rw [hsame.readINode, h.size]
  · rcases h.block with ⟨hnil, hexts, hblk⟩ | ⟨b, init, e, rfl, hentries, hblk, hpacked⟩
    · exact Or.inl ⟨hnil, hexts, by rw [hsame.readINode, hblk]⟩
    · refine Or.inr ⟨b, init, e, rfl, hentries, by rw [hsame.readINode, hblk], ?_⟩
      exact hpacked.congr (hblocks b (by
        rw [blocks_cons, Extent.blocks_one]
        exact List.mem_cons_self))

section directories
variable {g : Geometry} {diskSize i n : Nat} {p : Pointer} {others : Nat → Prop}
  {image : DiskImage} {exts : List Extent} {entries init : List Entry} {e : Entry}
  {aINode : BitVec 32}

/-- The inode of a directory, where the call looks for it. -/
theorem HasDirectory.isDir (h : HasDirectory image (g.iNode i) exts entries)
    (hformatted : Formatted g image) (hidx : aINode.toNat = i) :
    IsDir image aINode (blocks exts).length := by
  have hp : image.getINode aINode.toNat = g.iNode i := by
    rw [hidx]
    exact hformatted.getINode_eq i
  exact ⟨by rw [hp, h.mode], by rw [hp, h.nblks], by rw [hp, h.size]⟩

theorem withBlock_word {w : Nat} (h : w < p.ofs ∨ p.ofs + 32 ≤ w) :
    (image.withBlock p n).mStorage p.block w = image.mStorage p.block w := by
  have hlt : ∀ f : InodeField, w ≠ p.ofs + f.field.tOfs := by
    intro f
    have hf := f.tOfs_lt
    omega
  unfold withBlock
  rw [writeINode_word (hlt _), writeINode_word (hlt _), writeINode_word (hlt _),
    writeINode_word (hlt _)]

/-- The image with the first block of a directory, and an entry in it. -/
def withEntry (g : Geometry) (image : DiskImage) (p : Pointer) (n : Nat) (d : DirEntry) :
    DiskImage :=
  ((image.takeBlock g n).withBlock p n).setBlock n
    (putEntry (((image.takeBlock g n).withBlock p n).mStorage n) 0 d)

/-- **The first entry**: a block is taken for it. -/
theorem HasDirectory.first (h : HasDirectory image p [] [])
    (hown : Owning g diskSize image others [])
    (hp : g.iNodeStart < p.block ∧ p.block < g.dataStart)
    (hfound : firstFree (image.mapBit g.mapStart) g.capacity = some n)
    (hname : e.name.length < 2 ^ 10) :
    Owning g diskSize (withEntry g image p n (DirEntry.new e.name e.ino)) others [⟨n, 1⟩] ∧
      HasDirectory (withEntry g image p n (DirEntry.new e.name e.ino)) p [⟨n, 1⟩] [e] ∧
      OnlyNode g p [⟨n, 1⟩] image (withEntry g image p n (DirEntry.new e.name e.ino)) := by
  obtain ⟨hn, hdata, hfresh⟩ := hown.ledger.fresh hfound
  have hsmall : n < 2 ^ 32 := Nat.lt_trans hn g.numbers
  have hpa : ¬ g.Administers p.block := Geometry.not_administers (Nat.le_of_lt hp.1)
  have hnlow : g.iNodeStart < n := Nat.lt_of_lt_of_le g.iNode_lt_data hdata
  have hna : ¬ g.Administers n := Geometry.not_administers (Nat.le_of_lt hnlow)
  have hpn : p.block ≠ n := Nat.ne_of_lt (Nat.lt_of_lt_of_le hp.2 hdata)
  have hmem : ∀ b, b ∈ blocks [⟨n, 1⟩] ↔ b = n := by
    intro b
    rw [blocks_cons, Extent.blocks_one, blocks_nil, List.append_nil, List.mem_singleton]
  have hother : ∀ b, b ≠ n → b ≠ p.block →
      (withEntry g image p n (DirEntry.new e.name e.ino)).mStorage b =
        (image.takeBlock g n).mStorage b := fun b hbn hbp =>
    (setBlock_of_ne _ _ hbn).trans (withBlock_of_ne _ _ _ hbp)
  have hiNode : (withEntry g image p n (DirEntry.new e.name e.ino)).mStorage p.block =
      ((image.takeBlock g n).withBlock p n).mStorage p.block := setBlock_of_ne _ _ hpn
  have hadmin : ∀ b, g.Administers b →
      (withEntry g image p n (DirEntry.new e.name e.ino)).mStorage b =
        (image.takeBlock g n).mStorage b := by
    intro b hb
    refine hother b ?_ ?_
    · rintro rfl
      exact hna hb
    · rintro rfl
      exact hpa hb
  have hread : ∀ f, (withEntry g image p n (DirEntry.new e.name e.ino)).readINode p f =
      ((image.takeBlock g n).withBlock p n).readINode p f := fun f => readINode_congr hiNode f
  refine ⟨⟨hown.formatted.congr ?_, ?_, fun b hb => ?_, ?_, fun b hb => ?_⟩,
    ⟨?_, ?_, ?_, Or.inr ⟨n, [], e, rfl, rfl, ?_, ?_⟩⟩, fun b hb hbp hbn => ?_, fun w hw => ?_,
    fun f h1 h2 => ?_⟩
  · rw [hother _ (Nat.ne_of_lt (Nat.lt_trans g.super_lt_iNode hnlow))
      (Nat.ne_of_lt (Nat.lt_trans g.super_lt_iNode hp.1))]
    exact takeBlock_of_ne hn g.super_not_administered
  · have hledger := (hown.ledger.takeBlock hfound).congr hadmin
    refine hledger.of_iff fun b => ?_
    rw [hmem, blocks_nil]
    simp only [List.not_mem_nil, or_false]
  · rw [(hmem b).mp hb]
    exact fun ho => hfresh (Or.inl ho)
  · exact List.nodup_singleton n
  · rw [(hmem b).mp hb]
    exact ⟨hdata, hn⟩
  · rw [hread, withBlock_mode, readINode_congr (takeBlock_of_ne hn hpa), h.mode]
  · rw [hread, withBlock_nblks]
    rfl
  · have hlen : (blocks [⟨n, 1⟩]).length = 1 := rfl
    rw [hread, withBlock_size, hlen, Nat.one_mul]
  · rw [hread, withBlock_blk _ _ _ hsmall]
  · have hfits := usedLength_new_le e
    rw [usedLength_new hname] at hfits
    have htight : Tight (((image.takeBlock g n).withBlock p n).mStorage n) 0 [] := trivial
    have hpacked := htight.putEntry hname (by rw [totalWords_nil, Nat.zero_add]; exact hfits)
    unfold withEntry
    rw [setBlock_self]
    exact hpacked
  · rw [hother b (fun he => hbn ((hmem b).mpr he)) hbp]
    exact takeBlock_of_ne hn hb
  · rw [hiNode, withBlock_word hw, takeBlock_of_ne hn hpa]
  · refine congrArg BitVec.toNat ?_
    rw [read_congr (hadmin _ (Or.inr rfl))]
    exact (takeBlock_read hn).2.2 f h1 h2

/-- **Another entry**: the block is another one. -/
theorem HasDirectory.more {b : Nat} (h : HasDirectory image p [⟨b, 1⟩] (init ++ [e]))
    (hown : Owning g diskSize image others [⟨b, 1⟩]) (hp : p.block < g.dataStart)
    (hblk : image.readINode p (.cdi_addr 0 .blk) = b) {words : Words} {e' : Entry}
    (hpacked : Packed words (init ++ [e]) e') :
    Owning g diskSize (image.setBlock b words) others [⟨b, 1⟩] ∧
      HasDirectory (image.setBlock b words) p [⟨b, 1⟩] (init ++ [e] ++ [e']) ∧
      OnlyNode g p [⟨b, 1⟩] image (image.setBlock b words) := by
  have hmem : b ∈ blocks [⟨b, 1⟩] := by
    rw [blocks_cons, Extent.blocks_one]
    exact List.mem_cons_self
  have hlow : g.iNodeStart < b := Nat.lt_of_lt_of_le g.iNode_lt_data (hown.place b hmem).1
  have hadmin : ¬ g.Administers b := Geometry.not_administers (Nat.le_of_lt hlow)
  have hpb : p.block ≠ b := Nat.ne_of_lt (Nat.lt_of_lt_of_le hp (hown.place b hmem).1)
  have hread : ∀ f, (image.setBlock b words).readINode p f = image.readINode p f := fun f =>
    readINode_congr (setBlock_of_ne _ _ hpb) f
  refine ⟨⟨hown.formatted.congr (setBlock_of_ne _ _ ?_), hown.ledger.congr fun b' hb' => ?_,
    hown.apart, hown.nodup, hown.place⟩, ⟨by rw [hread, h.mode], by rw [hread, h.nblks],
      by rw [hread, h.size], Or.inr ⟨b, init ++ [e], e', rfl, rfl, by rw [hread, hblk], ?_⟩⟩,
    fun b' _ _ hnot => setBlock_of_ne _ _ ?_, fun w _ => by rw [setBlock_of_ne _ _ hpb],
    fun f _ _ => counter_setBlock _ (fun he => hadmin (Or.inr he)) f⟩
  · exact Nat.ne_of_lt (Nat.lt_trans g.super_lt_iNode hlow)
  · refine setBlock_of_ne _ _ ?_
    rintro rfl
    exact hadmin hb'
  · rw [setBlock_self]
    exact hpacked
  · rintro rfl
    exact hnot hmem

/-- The directory has room for the entry, and the map a block for the first one. -/
def FitsDir (g : Geometry) (image : DiskImage) (entries : List Entry) (e : Entry) : Prop :=
  (entries = [] → image.usedBlocks g < g.capacity) ∧ totalWords entries + e.words ≤ cBlockSize

/-- **`AppendToDir`**: the entry is behind those the directory had, and nothing else changes; or
    there is no room for it. -/
theorem HasDirectory.appendToDir (h : HasDirectory image (g.iNode i) exts entries)
    (hown : Owning g diskSize image others exts) (hi : g.HasINode i) (hidx : aINode.toNat = i)
    (hname : e.name.length < 2 ^ 10) :
    (∃ exn image', appendToDir aINode (DirEntry.new e.name e.ino) image =
        (.error exn, image') ∧ ¬ FitsDir g image entries e) ∨
      ∃ image' exts', appendToDir aINode (DirEntry.new e.name e.ino) image =
          (.ok (), image') ∧ Owning g diskSize image' others exts' ∧
        HasDirectory image' (g.iNode i) exts' (entries ++ [e]) ∧
        OnlyNode g (g.iNode i) exts' image image' := by
  have hp := hi.between
  have hpointer : image.getINode aINode.toNat = g.iNode i := by
    rw [hidx]
    exact hown.formatted.getINode_eq i
  have hisDir := h.isDir hown.formatted hidx
  rcases h.block with ⟨rfl, rfl, hblk⟩ | ⟨b, init, last, rfl, rfl, hblk, hpacked⟩
  · -- a directory without a block
    have hget := getFreeBlock_eq hown.formatted
    have hnone : (blocks []).length = 0 := rfl
    have hdir : image.dirBlock aINode = 0 := by
      unfold dirBlock
      rw [hpointer, hblk]
    rcases hfound : firstFree (image.mapBit g.mapStart) g.capacity with - | n
    · rw [hfound] at hget
      have hplace : findPlace (image.getINode aINode.toNat) (image.dirBlock aINode)
          (blocks []).length image = (.error (.generic "Disk is full"), image) := by
        unfold findPlace
        rw [if_pos hnone]
        exact Run.bind_apply_error hget
      refine Or.inl ⟨_, _, hisDir.appendToDir_error (by decide) hplace _, fun hall => ?_⟩
      obtain ⟨n, hsome⟩ := exists_firstFree_of_count (hall.1 rfl)
      rw [hfound] at hsome
      cases hsome
    · rw [hfound] at hget
      obtain ⟨hn, -, -⟩ := hown.ledger.fresh hfound
      have hplace : findPlace (image.getINode aINode.toNat) (image.dirBlock aINode)
          (blocks []).length image =
            (.ok (n, 0), (image.takeBlock g n).withBlock (g.iNode i) n) := by
        have hfirst := firstBlock_eq hget (g.iNode i)
        rw [Nat.mod_eq_of_lt (Nat.lt_trans hn g.numbers)] at hfirst
        unfold findPlace
        rw [if_pos hnone, hdir, hpointer]
        exact hfirst
      have hrun := hisDir.appendToDir_eq (by decide) hplace (DirEntry.new e.name e.ino)
      rw [if_pos (by rw [Nat.zero_add]; exact usedLength_new_le e)] at hrun
      obtain ⟨hown', hdir', honly⟩ := h.first hown hp hfound hname
      exact Or.inr ⟨_, _, hrun, hown', hdir', honly⟩
  · -- a directory with a block
    have hmem : b ∈ blocks [⟨b, 1⟩] := by
      rw [blocks_cons, Extent.blocks_one]
      exact List.mem_cons_self
    have hdir : image.dirBlock aINode = b := by
      unfold dirBlock
      rw [hpointer, hblk]
    have hlow : g.iNodeStart < b := Nat.lt_of_lt_of_le g.iNode_lt_data (hown.place b hmem).1
    have hasDir : HasDir image aINode init last := by
      refine ⟨hisDir, ?_, ?_, ?_⟩
      · rw [hdir]
        exact Nat.ne_of_gt (Nat.lt_trans g.super_lt_iNode hlow)
      · rw [hdir, hpointer]
        exact Nat.ne_of_gt (Nat.lt_of_lt_of_le hp.2 (hown.place b hmem).1)
      · rw [hdir]
        exact hpacked
    by_cases hroom : totalWords (init ++ [last]) < cBlockSize
    · have hplace := hasDir.findPlace_eq hroom
      have hrun := hisDir.appendToDir_eq (Nat.le_refl 1) hplace (DirEntry.new e.name e.ino)
      rw [setBlock_self] at hrun
      split at hrun
      · rename_i hfits
        rw [usedLength_new hname] at hfits
        have hnew := hasDir.packed.shorten.putEntry hname hfits
        obtain ⟨hown', hdir', honly⟩ := h.more hown hp.2 hblk hnew
        refine Or.inr ⟨_, [⟨b, 1⟩], hrun.trans ?_, hown', hdir', honly⟩
        rw [hdir]
        refine congrArg (Prod.mk (Except.ok ())) ?_
        simp only [setBlock, Function.update_idem]
        unfold shortened
        rw [hdir]
      · rename_i hnot
        rw [usedLength_new hname] at hnot
        exact Or.inl ⟨_, _, hrun, fun hall => hnot hall.2⟩
    · have hfits := hpacked.fits
      rw [← totalWords_concat] at hfits
      have hthree := e.three_le_words
      exact Or.inl ⟨_, _, hasDir.full (by omega) _, fun hall => by have hroom' := hall.2; omega⟩

end directories

end Mkfs

end CraySim
