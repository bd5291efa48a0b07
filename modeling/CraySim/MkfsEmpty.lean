/-
  Subject:   The image `CreateSuperBlock` makes holds an empty file system.

  * `read_assignAll` -- a field that was assigned among others,
  * `FsParams.geometry` -- where the parts of the image are,
  * `Counted`, `CountedINodes` -- blocks, or inodes, allocated one after the other,
  * `createSuperBlock_sound` -- the function.
-/
import CraySim.MkfsFormat

namespace CraySim

namespace Mkfs

open FirstFit ExtentFile DiskImage

/-! ## 1. Fields one after the other -/

section assign
variable {F : Type} {place : F → IntField} {value : F → Nat} {p : Pointer} {fields : List F}
  {image : DiskImage}

theorem IntField.Apart.symm {f g : IntField} (h : f.Apart g) : g.Apart f := by
  rcases h with hofs | hleft | hright
  · exact Or.inl fun he => hofs he.symm
  · exact Or.inr (Or.inr hleft)
  · exact Or.inr (Or.inl hright)

theorem assignAll_of_ne {b : Nat} (h : b ≠ p.block) :
    (assignAll place value p fields image).mStorage b = image.mStorage b := by
  unfold assignAll
  induction fields generalizing image with
  | nil => rfl
  | cons f fields ih =>
    rw [List.foldl_cons, ih]
    exact write_of_ne _ _ _ _ h

theorem assignAll_append (fields fields' : List F) :
    assignAll place value p (fields ++ fields') image =
      assignAll place value p fields' (assignAll place value p fields image) :=
  List.foldl_append

theorem read_assignAll_of_apart {f : IntField} (h : ∀ g ∈ fields, (place g).Apart f) :
    (assignAll place value p fields image).read p f = image.read p f := by
  unfold assignAll
  induction fields generalizing image with
  | nil => rfl
  | cons g fields ih =>
    rw [List.foldl_cons, ih fun g' hg' => h g' (List.mem_cons_of_mem _ hg')]
    exact read_write_of_apart _ _ _ _ _ (h g List.mem_cons_self)

/-- **A field that is among them** has its value, whatever the others have. -/
theorem read_assignAll (hpair : fields.Pairwise fun f g => (place f).Apart (place g)) {f : F}
    (hf : f ∈ fields) (hdigits : value f < 2 ^ (place f).digits)
    (hsize : value f < 2 ^ (place f).tSize) :
    ((assignAll place value p fields image).read p (place f)).toNat = value f := by
  induction fields generalizing image with
  | nil => cases hf
  | cons g fields ih =>
    rw [List.pairwise_cons] at hpair
    have hrest : assignAll place value p (g :: fields) image =
        assignAll place value p fields (image.write p (place g) (BitVec.ofNat _ (value g))) := rfl
    rw [hrest]
    by_cases hmem : f ∈ fields
    · exact ih hpair.2 hmem
    · obtain rfl : f = g := (List.mem_cons.mp hf).resolve_right hmem
      rw [read_assignAll_of_apart fun g' hg' => (hpair.1 g' hg').symm, toNat_read_write,
        BitVec.toNat_ofNat, Nat.mod_eq_of_lt hdigits, Nat.mod_eq_of_lt hsize]

end assign

/-! ## 2. Where the parts are -/

/-- Sizes the program can handle: the map of the blocks has a block, the numbers of the blocks have
    32 bits, and there are inodes for the directories. -/
structure FsParams.Handled (c : FsParams) : Prop where
  lower : 64 ≤ c.mDiskSizeInBlocks
  upper : c.mDiskSizeInBlocks ≤ 2 ^ 32 - 2 ^ 15
  iNodes : 4 ≤ c.iNodeCnt

section geometry
variable {c : FsParams}

theorem FsParams.Handled.bounds (h : c.Handled) :
    0 < c.mapBlockCnt ∧ c.mapBlockCnt < 2 ^ 17 ∧ 1 < c.iNodeBlockCnt ∧ c.iNodeBlockCnt ≤ 2049 ∧
      c.iNodeCnt ≤ 16 * (c.iNodeBlockCnt - 1) ∧ c.iNodeCnt ≤ 32768 := by
  obtain ⟨hlower, hupper, hiNodes⟩ := h
  have hsize : cBlockSize = 512 := rfl
  have hcnt : c.iNodeCnt ≤ 32768 := by
    unfold FsParams.iNodeCnt
    rw [hsize]
    omega
  unfold FsParams.mapBlockCnt FsParams.mapSize FsParams.iNodeBlockCnt
  rw [hsize]
  omega

theorem FsParams.Handled.numbers (h : c.Handled) : c.mapBlockCnt * cBlockSize * 64 < 2 ^ 32 := by
  have hbound := h.bounds.2.1
  have hsize : cBlockSize = 512 := rfl
  rw [hsize]
  omega

theorem FsParams.Handled.iNodeBlockCnt_pos (h : c.Handled) : 0 < c.iNodeBlockCnt :=
  Nat.lt_trans Nat.one_pos h.bounds.2.2.1

theorem FsParams.Handled.iNodeBlockCnt_le (h : c.Handled) :
    c.iNodeBlockCnt ≤ 1 + cBlockSize * 64 / 16 := h.bounds.2.2.2.1

/-- There are bits for all blocks in front of the data. -/
theorem FsParams.Handled.dataStart_le (h : c.Handled) :
    c.sfsStart + 1 ≤ c.mapBlockCnt * cBlockSize * 64 := by
  obtain ⟨hpos, -, -, hiNodes, -⟩ := h.bounds
  have hsize : cBlockSize = 512 := rfl
  have hmap : mapStart = 11 := rfl
  unfold FsParams.sfsStart FsParams.iNodeStart FsParams.dynamicBlockStart
  rw [hsize, hmap]
  omega

theorem FsParams.super_lt_mapStart : SUPERB < mapStart := by decide

/-- The parts of the image. -/
def FsParams.geometry (c : FsParams) (h : c.Handled) : Geometry where
  superCnt := NC1NSUPER
  mapStart := mapStart
  mapBlockCnt := c.mapBlockCnt
  dynamicBlock := c.dynamicBlockStart
  iNodeStart := c.iNodeStart
  iNodeBlockCnt := c.iNodeBlockCnt
  dataStart := c.sfsStart + 1
  super_lt := super_lt_mapStart
  super_le := Nat.le_refl _
  map_le := Nat.le_refl _
  dynamic_lt := Nat.lt_succ_self _
  iNode_le := Nat.le_succ _
  iNode_pos := h.iNodeBlockCnt_pos
  iNode_bound := h.iNodeBlockCnt_le
  data_le := h.dataStart_le
  numbers := h.numbers

/-- The blocks in front of the data, each of them once. -/
theorem systemBlocks_perm (c : FsParams) :
    (systemBlocks c).Perm (List.range (c.sfsStart + 1)) := by
  have hrange : List.range (c.sfsStart + 1) =
      0 :: (List.range' SUPERB NC1NSUPER ++ List.range' FsParams.mapStart c.mapBlockCnt ++
        [c.dynamicBlockStart] ++ List.range' c.iNodeStart c.iNodeBlockCnt ++ [c.sfsStart]) := by
    have hmap : FsParams.mapStart = SUPERB + NC1NSUPER := rfl
    have hdynamic : c.dynamicBlockStart = SUPERB + (NC1NSUPER + c.mapBlockCnt) := by
      unfold FsParams.dynamicBlockStart
      rw [hmap, Nat.add_assoc]
    have hiNode : c.iNodeStart = SUPERB + (NC1NSUPER + c.mapBlockCnt + 1) := by
      unfold FsParams.iNodeStart
      rw [hdynamic, Nat.add_assoc]
    have hsfs : c.sfsStart = SUPERB + (NC1NSUPER + c.mapBlockCnt + 1 + c.iNodeBlockCnt) := by
      unfold FsParams.sfsStart
      rw [hiNode, Nat.add_assoc]
    have hone : ∀ n, [n] = List.range' n 1 := fun _ => rfl
    rw [hone c.dynamicBlockStart, hone c.sfsStart, hsfs, hiNode, hdynamic, hmap,
      List.range'_append_1, List.range'_append_1, List.range'_append_1, List.range'_append_1,
      List.range_eq_range', Nat.add_comm SUPERB, List.range'_succ]
    rfl
  rw [hrange]
  unfold systemBlocks
  refine List.Perm.cons 0 ?_
  rw [List.append_assoc, List.append_assoc _ (List.range' c.iNodeStart c.iNodeBlockCnt)]
  exact List.Perm.append_left _ List.perm_append_comm

end geometry

/-! ## 3. Blocks and inodes, allocated one after the other -/

/-- **The map of the blocks counts these ones**, and the rest of the image is as it was. -/
structure Counted (g : Geometry) (diskSize : Nat) (image0 image : DiskImage) (l : List Nat) :
    Prop where
  formatted : Formatted g image
  used_iff : ∀ n < g.capacity, image.mapBit g.mapStart n = true ↔ n ∈ l
  tfree : (image.counter g db_tfree + l.length) % 2 ^ 64 = diskSize % 2 ^ 64
  avail : (image.counter g db_fpm_bmp_avail + l.length) % 2 ^ 64 = diskSize % 2 ^ 64
  beside : ∀ b, ¬ g.Administers b → image.mStorage b = image0.mStorage b
  counters : ∀ f, db_tfree.Apart f → db_fpm_bmp_avail.Apart f →
    image.counter g f = image0.counter g f

/-- **The map of the inodes counts these ones.** -/
structure CountedINodes (g : Geometry) (iNodeCnt : Nat) (image0 image : DiskImage) (l : List Nat) :
    Prop where
  formatted : Formatted g image
  used_iff : ∀ i < cBlockSize * 64, image.mapBit g.iNodeStart i = true ↔ i ∈ l
  ifree : (image.counter g db_ifree + l.length) % 2 ^ 64 = iNodeCnt % 2 ^ 64
  ninode : (image.counter g db_ninode + 2) % 2 ^ 64 = l.length % 2 ^ 64
  ireg : (image.counter g db_part_fd_ireg + l.length) % 2 ^ 64 = iNodeCnt % 2 ^ 64
  beside : ∀ b, b ≠ g.dynamicBlock → b ≠ g.iNodeStart → image.mStorage b = image0.mStorage b
  counters : ∀ f, db_ifree.Apart f → db_ninode.Apart f → db_part_fd_ireg.Apart f →
    image.counter g f = image0.counter g f

section counted
variable {g : Geometry} {diskSize iNodeCnt n : Nat} {image0 image : DiskImage} {l rest : List Nat}

theorem mark_true_iff {used : Nat → Bool} {m : Nat} :
    mark used n m = true ↔ used m = true ∨ m = n := by
  unfold mark
  rw [Bool.or_eq_true, beq_iff_eq]

theorem mem_concat_iff {m : Nat} : m ∈ l ++ [n] ↔ m ∈ l ∨ m = n := by
  rw [List.mem_append, List.mem_singleton]

/-- **Numbers that are all different** are allocated one after the other. -/
theorem allocateEach_ok {allocate : Nat → Run MkfsExn DiskImage Unit} {ok : Nat → Prop}
    {I : DiskImage → List Nat → Prop}
    (hstep : ∀ image l n, I image l → ok n → n ∉ l →
      ∃ image', allocate n image = (.ok (), image') ∧ I image' (l ++ [n]))
    (h : I image l) (hok : ∀ n ∈ rest, ok n) (hnodup : (l ++ rest).Nodup) :
    ∃ image', allocateEach allocate rest image = (.ok (), image') ∧
      I image' (l ++ rest) := by
  induction rest generalizing image l with
  | nil => exact ⟨image, rfl, by rw [List.append_nil]; exact h⟩
  | cons n rest ih =>
    have hfresh : n ∉ l := fun hmem =>
      (List.nodup_append.mp hnodup).2.2 n hmem n List.mem_cons_self rfl
    obtain ⟨image1, hrun, hnext⟩ := hstep image l n h (hok n List.mem_cons_self) hfresh
    have hassoc : l ++ n :: rest = l ++ [n] ++ rest := by
      rw [List.append_assoc, List.singleton_append]
    rw [hassoc] at hnodup ⊢
    obtain ⟨image', hrest, hall⟩ := ih hnext (fun m hm => hok m (List.mem_cons_of_mem _ hm)) hnodup
    exact ⟨image', (Run.bind_apply_ok hrun).trans hrest, hall⟩

theorem Counted.allocateBlock (h : Counted g diskSize image0 image l) (hn : n < g.capacity)
    (hfresh : n ∉ l) :
    allocateBlock n image = (.ok (), image.takeBlock g n) ∧
      Counted g diskSize image0 (image.takeBlock g n) (l ++ [n]) := by
  have hfree : image.mapBit g.mapStart n = false :=
    Bool.eq_false_of_not_eq_true fun hused => hfresh ((h.used_iff n hn).mp hused)
  have hrun := allocateBlock_eq h.formatted n
  rw [if_pos hfree] at hrun
  obtain ⟨htfree, havail, hother⟩ := @takeBlock_read g image n hn
  have hlen : (l ++ [n]).length = l.length + 1 := List.length_append
  refine ⟨hrun, h.formatted.congr (takeBlock_of_ne hn g.super_not_administered), fun m hm => ?_, ?_,
    ?_, fun b hb => (takeBlock_of_ne hn hb).trans (h.beside b hb), fun f h1 h2 => ?_⟩
  · rw [takeBlock_mapBit hm, mark_true_iff, h.used_iff m hm, mem_concat_iff]
  · exact counted_down htfree hlen h.tfree
  · exact counted_down havail hlen h.avail
  · rw [← h.counters f h1 h2]
    exact congrArg BitVec.toNat (hother f h1 h2)

theorem CountedINodes.allocateINodeIdx (h : CountedINodes g iNodeCnt image0 image l)
    (hn : n < cBlockSize * 64) (hfresh : n ∉ l) :
    allocateINodeIdx n image = (.ok (), image.takeINode g n) ∧
      CountedINodes g iNodeCnt image0 (image.takeINode g n) (l ++ [n]) := by
  have hfree : image.mapBit g.iNodeStart n = false :=
    Bool.eq_false_of_not_eq_true fun hused => hfresh ((h.used_iff n hn).mp hused)
  have hrun := allocateINodeIdx_eq h.formatted n
  rw [if_pos hfree] at hrun
  obtain ⟨hifree, hninode, hireg, hother⟩ := @takeINode_read g image n
  have hlen : (l ++ [n]).length = l.length + 1 := List.length_append
  refine ⟨hrun, h.formatted.congr (takeINode_of_ne hn ?_ (Nat.ne_of_lt g.super_lt_iNode)),
    fun m hm => ?_, ?_, ?_, ?_, fun b h1 h2 => (takeINode_of_ne hn h1 h2).trans (h.beside b h1 h2),
    fun f h1 h2 h3 => ?_⟩
  · have hsuper := g.super_lt
    have hmap := g.map_le
    omega
  · rw [takeINode_mapBit, mark_true_iff, h.used_iff m hm, mem_concat_iff]
  · exact counted_down hifree hlen h.ifree
  · exact counted_up hninode hlen h.ninode
  · exact counted_down hireg hlen h.ireg
  · rw [← h.counters f h1 h2 h3]
    exact congrArg BitVec.toNat (hother f h1 h2 h3)

end counted

/-! ## 4. The function -/

theorem superFields_apart :
    superFields.flatten.Pairwise fun f g => f.field.Apart g.field := by
  decide +kernel

theorem dynamicFields_apart :
    (dynamicFields ++ dynamicFields').Pairwise fun f g => f.field.Apart g.field := by
  decide +kernel

section create
variable {c : FsParams} {image : DiskImage}

/-- No name is too long. -/
structure FsParams.NamesFit (c : FsParams) : Prop where
  fs : c.aFsName.length ≤ 8
  pack : c.aPackName.length ≤ 8
  part : c.aPartName.length ≤ 8

theorem crayAssert_ok {aCond : Prop} [Decidable aCond] {u : Unit} {image' : DiskImage}
    (h : crayAssert aCond image = (.ok u, image')) : aCond := by
  by_contra hcond
  rw [crayAssert_false hcond] at h
  cases h

theorem assignSuper_eq (h : c.NamesFit) (image : DiskImage) :
    assignSuper c image = (.ok (),
      assignAll SuperField.field c.superValue getSuperBlock superFields.flatten image) := by
  have hflat : superFields.flatten = superFields.getD 0 [] ++ superFields.getD 1 [] ++
      superFields.getD 2 [] ++ superFields.getD 3 [] := rfl
  unfold assignSuper
  rw [Run.bind_apply_ok (Run.modify_apply _ _), Run.bind_apply_ok (crayAssert_true h.fs _),
    Run.bind_apply_ok (Run.modify_apply _ _), Run.bind_apply_ok (crayAssert_true h.pack _),
    Run.bind_apply_ok (Run.modify_apply _ _), Run.bind_apply_ok (crayAssert_true h.part _),
    hflat, assignAll_append, assignAll_append, assignAll_append]
  rfl

/-- The function rejects names that are too long. -/
theorem namesFit_of_ok {image' : DiskImage} (hrun : createSuperBlock c image = (.ok (), image')) :
    c.NamesFit := by
  obtain ⟨_, image1, hsuper, -⟩ := Run.bind_eq_ok hrun
  obtain ⟨_, _, -, hsuper⟩ := Run.bind_eq_ok hsuper
  obtain ⟨_, _, hfs, hsuper⟩ := Run.bind_eq_ok hsuper
  obtain ⟨_, _, -, hsuper⟩ := Run.bind_eq_ok hsuper
  obtain ⟨_, _, hpack, hsuper⟩ := Run.bind_eq_ok hsuper
  obtain ⟨_, _, -, hsuper⟩ := Run.bind_eq_ok hsuper
  obtain ⟨_, _, hpart, -⟩ := Run.bind_eq_ok hsuper
  exact ⟨crayAssert_ok hfs, crayAssert_ok hpack, crayAssert_ok hpart⟩

/-- The image with its super block, and the image with its dynamic block as well. -/
def withSuper (c : FsParams) : DiskImage :=
  assignAll SuperField.field c.superValue getSuperBlock superFields.flatten empty

def withDynamic (c : FsParams) : DiskImage :=
  assignAll DynamicField.field c.dynamicValue ⟨c.dynamicBlockStart, 0⟩ dynamicFields'
    (clearBegin ⟨c.dynamicBlockStart, 0⟩
      (assignAll DynamicField.field c.dynamicValue ⟨c.dynamicBlockStart, 0⟩ dynamicFields
        (withSuper c)))

theorem withSuper_read {f : SuperField} (hf : f ∈ superFields.flatten)
    (hdigits : c.superValue f < 2 ^ f.field.digits) (hsize : c.superValue f < 2 ^ f.field.tSize) :
    ((withSuper c).read getSuperBlock f.field).toNat = c.superValue f :=
  read_assignAll superFields_apart hf hdigits hsize

theorem withSuper_of_ne {b : Nat} (h : b ≠ SUPERB) : (withSuper c).mStorage b = fun _ => 0 :=
  assignAll_of_ne h

theorem clearBegin_of_ne {p : Pointer} {b : Nat} (h : b ≠ p.block) :
    (clearBegin p image).mStorage b = image.mStorage b := setBlock_of_ne _ _ h

theorem clearBegin_read {p : Pointer} {f : IntField} (h : f.tOfs ≠ db_fpm + 3) :
    (clearBegin p image).read p f = image.read p f := by
  unfold clearBegin DiskImage.read
  rw [setBlock_self]
  refine IntField.get_congr (Function.update_of_ne ?_ _ _)
  omega

theorem withDynamic_of_ne {b : Nat} (h : b ≠ c.dynamicBlockStart) :
    (withDynamic c).mStorage b = (withSuper c).mStorage b := by
  unfold withDynamic
  rw [assignAll_of_ne h, clearBegin_of_ne h, assignAll_of_ne h]

theorem withDynamic_read {f : DynamicField} (hf : f ∈ dynamicFields ++ dynamicFields')
    (hbegin : f.field.tOfs ≠ db_fpm + 3) (hdigits : c.dynamicValue f < 2 ^ f.field.digits)
    (hsize : c.dynamicValue f < 2 ^ f.field.tSize) :
    ((withDynamic c).read ⟨c.dynamicBlockStart, 0⟩ f.field).toNat = c.dynamicValue f := by
  have hpair := dynamicFields_apart
  rw [List.pairwise_append] at hpair
  unfold withDynamic
  by_cases hlast : f ∈ dynamicFields'
  · exact read_assignAll hpair.2.1 hlast hdigits hsize
  · have hfirst := (List.mem_append.mp hf).resolve_right hlast
    rw [read_assignAll_of_apart fun g hg => (hpair.2.2 f hfirst g hg).symm, clearBegin_read hbegin]
    exact read_assignAll hpair.1 hfirst hdigits hsize

/-- What the function computes fits into the fields. -/
theorem FsParams.Handled.fits (h : c.Handled) :
    c.dynamicBlockStart < 2 ^ 32 ∧ c.iNodeStart < 2 ^ 32 ∧ c.mapBlockCnt < 2 ^ 32 ∧
      c.iNodeCnt < 2 ^ 32 ∧ c.mDiskSizeInBlocks < 2 ^ 32 := by
  obtain ⟨-, hmap, -, -, -, hcnt⟩ := h.bounds
  have hupper := h.upper
  have hstart : mapStart = 11 := rfl
  unfold FsParams.iNodeStart FsParams.dynamicBlockStart
  omega

theorem withSuper_fields (h : c.Handled) :
    ((withSuper c).read getSuperBlock s_dboff).toNat = c.dynamicBlockStart ∧
      ((withSuper c).read getSuperBlock s_mapoff).toNat = FsParams.mapStart ∧
      ((withSuper c).read getSuperBlock s_mapblks).toNat = c.mapBlockCnt ∧
      ((withSuper c).read getSuperBlock s_nscpys).toNat = NC1NSUPER ∧
      ((withSuper c).read getSuperBlock s_root).toNat = 2 ∧
      ((withSuper c).read getSuperBlock s_part_fd_ireg_blk).toNat = c.iNodeStart := by
  obtain ⟨hdynamic, hiNode, hmap, -, -⟩ := h.fits
  have hlt : (2 : Nat) ^ 32 < 2 ^ 64 := by decide
  have hdynamic' := Nat.lt_trans hdynamic hlt
  have hmap' := Nat.lt_trans hmap hlt
  have hstart : FsParams.mapStart < 2 ^ 64 := by decide
  have hcopies : NC1NSUPER < 2 ^ 64 := by decide
  have hroot : 2 < 2 ^ 64 := by decide
  exact ⟨withSuper_read (f := .s_dboff) (by decide) hdynamic' hdynamic',
    withSuper_read (f := .s_mapoff) (by decide) hstart hstart,
    withSuper_read (f := .s_mapblks) (by decide) hmap' hmap',
    withSuper_read (f := .s_nscpys) (by decide) hcopies hcopies,
    withSuper_read (f := .s_root) (by decide) hroot hroot,
    withSuper_read (f := .fd_ireg .blk) (by decide) hiNode hiNode⟩

/-- **The dynamic block**, in its place. -/
theorem assignDynamic_eq (h : c.Handled) :
    assignDynamic c (withSuper c) = (.ok (), withDynamic c) := by
  have hdynamic : (withSuper c).getDynamicBlock = ⟨c.dynamicBlockStart, 0⟩ := by
    unfold getDynamicBlock
    rw [(withSuper_fields h).1]
  unfold assignDynamic
  rw [Run.bind_apply_ok (Run.get_apply _), hdynamic, Run.bind_apply_ok (Run.modify_apply _ _),
    Run.bind_apply_ok (Run.modify_apply _ _)]
  rfl

/-- The image in front of the allocations. -/
def unallocated (c : FsParams) : DiskImage := fillSfs c (withDynamic c)

theorem unallocated_of_ne {b : Nat} (hsfs : b ≠ c.sfsStart) (hdynamic : b ≠ c.dynamicBlockStart) :
    (unallocated c).mStorage b = (withSuper c).mStorage b := by
  unfold unallocated fillSfs
  rw [setBlock_of_ne _ _ hsfs, withDynamic_of_ne hdynamic]

theorem unallocated_super : (unallocated c).mStorage SUPERB = (withSuper c).mStorage SUPERB := by
  have hstart : FsParams.mapStart = 11 := rfl
  have hsuper : SUPERB = 1 := rfl
  have hsfs : c.sfsStart = FsParams.mapStart + c.mapBlockCnt + 1 + c.iNodeBlockCnt := rfl
  have hdynamic : c.dynamicBlockStart = FsParams.mapStart + c.mapBlockCnt := rfl
  exact unallocated_of_ne (by omega) (by omega)

theorem unallocated_counter (h : c.Handled) {f : DynamicField}
    (hf : f ∈ dynamicFields ++ dynamicFields') (hbegin : f.field.tOfs ≠ db_fpm + 3)
    (hdigits : c.dynamicValue f < 2 ^ f.field.digits)
    (hsize : c.dynamicValue f < 2 ^ f.field.tSize) :
    (unallocated c).counter (c.geometry h) f.field = c.dynamicValue f := by
  rw [← withDynamic_read hf hbegin hdigits hsize]
  refine congrArg BitVec.toNat (read_congr (p := ⟨c.dynamicBlockStart, 0⟩) ?_ f.field)
  refine setBlock_of_ne _ _ (Nat.ne_of_lt ?_)
  unfold FsParams.sfsStart FsParams.iNodeStart
  simp only
  omega

theorem unallocated_formatted (h : c.Handled) : Formatted (c.geometry h) (unallocated c) := by
  obtain ⟨hdynamic, hmapoff, hmapblks, hcopies, -, hiNode⟩ := withSuper_fields h
  have hsuper : Formatted (c.geometry h) (withSuper c) := by
    refine ⟨hmapoff, hmapblks, ?_, hiNode, hcopies⟩
    unfold getDynamicBlock
    rw [hdynamic]
    rfl
  exact hsuper.congr unallocated_super

/-- **Nothing is allocated yet.** -/
theorem unallocated_counted (h : c.Handled) :
    Counted (c.geometry h) c.mDiskSizeInBlocks (unallocated c) (unallocated c) [] := by
  obtain ⟨-, -, -, -, hD⟩ := h.fits
  have hlt : c.mDiskSizeInBlocks < 2 ^ 64 := Nat.lt_trans hD (by decide)
  have hstart : FsParams.mapStart = 11 := rfl
  have hsuper : SUPERB = 1 := rfl
  refine ⟨unallocated_formatted h, fun n hn => ?_, ?_, ?_, fun _ _ => rfl, fun _ _ _ => rfl⟩
  · have hpage := mapBlock_lt hn
    have hzero : (unallocated c).mStorage ((c.geometry h).mapStart + n / 64 / cBlockSize) =
        fun _ => 0 := by
      have hlow : (c.geometry h).mapStart = FsParams.mapStart := rfl
      have hcnt : (c.geometry h).mapBlockCnt = c.mapBlockCnt := rfl
      have hsfs : c.sfsStart = FsParams.mapStart + c.mapBlockCnt + 1 + c.iNodeBlockCnt := rfl
      have hdynamic : c.dynamicBlockStart = FsParams.mapStart + c.mapBlockCnt := rfl
      rw [hlow]
      rw [hcnt] at hpage
      generalize n / 64 / cBlockSize = page at hpage
      exact (unallocated_of_ne (by omega) (by omega)).trans (withSuper_of_ne (by omega))
    have hbit : ((fun _ => 0 : Words) (n / 64 % cBlockSize)).getLsbD (mapPos (n % 64)) = false :=
      BitVec.getLsbD_zero
    rw [mapBit_eq, hzero, hbit]
    exact iff_of_false Bool.false_ne_true List.not_mem_nil
  · have hread := unallocated_counter h (f := .db_tfree) (by decide) (by decide) hlt hlt
    rw [show db_tfree = DynamicField.db_tfree.field from rfl, hread]
    rfl
  · have hread := unallocated_counter h (f := .bmp_avail) (by decide) (by decide) hlt hlt
    rw [show db_fpm_bmp_avail = DynamicField.bmp_avail.field from rfl, hread]
    rfl

/-- A block of inodes, or their map, holds zeros. -/
theorem unallocated_iNodes {b : Nat} (hlow : c.iNodeStart ≤ b) (hhigh : b < c.sfsStart) :
    (unallocated c).mStorage b = fun _ => 0 := by
  have hstart : FsParams.mapStart = 11 := rfl
  have hsuper : SUPERB = 1 := rfl
  have hdynamic : c.dynamicBlockStart = FsParams.mapStart + c.mapBlockCnt := rfl
  have hiNode : c.iNodeStart = c.dynamicBlockStart + 1 := rfl
  exact (unallocated_of_ne (Nat.ne_of_lt hhigh) (by omega)).trans (withSuper_of_ne (by omega))

theorem Counted.iNodes (h : c.Handled) {l : List Nat}
    (hcounted : Counted (c.geometry h) c.mDiskSizeInBlocks (unallocated c) image l) :
    CountedINodes (c.geometry h) c.iNodeCnt image image [] := by
  obtain ⟨-, -, -, hcnt, -⟩ := h.fits
  have hlt : c.iNodeCnt < 2 ^ 64 := Nat.lt_trans hcnt (by decide)
  have hninode : 2 ^ 64 - 2 < 2 ^ 64 := by decide
  have hstart : ∀ b, c.iNodeStart ≤ b → b < c.sfsStart → image.mStorage b = fun _ => 0 :=
    fun b hlow hhigh => (hcounted.beside b (Geometry.not_administers hlow)).trans
      (unallocated_iNodes hlow hhigh)
  refine ⟨hcounted.formatted, fun i hi => ?_, ?_, ?_, ?_, fun _ _ _ => rfl, fun _ _ _ _ => rfl⟩
  · have hzero : image.mStorage ((c.geometry h).iNodeStart + i / 64 / cBlockSize) = fun _ => 0 := by
      rw [iNodeMap_block hi]
      exact hstart c.iNodeStart (Nat.le_refl _) (Nat.lt_add_of_pos_right h.iNodeBlockCnt_pos)
    have hbit : ((fun _ => 0 : Words) (i / 64 % cBlockSize)).getLsbD (mapPos (i % 64)) = false :=
      BitVec.getLsbD_zero
    rw [mapBit_eq, hzero, hbit]
    exact iff_of_false Bool.false_ne_true List.not_mem_nil
  · have hread := unallocated_counter h (f := .db_ifree) (by decide) (by decide) hlt hlt
    rw [hcounted.counters db_ifree (by decide) (by decide),
      show db_ifree = DynamicField.db_ifree.field from rfl, hread]
    rfl
  · have hread := unallocated_counter h (f := .db_ninode) (by decide) (by decide) hninode hninode
    rw [hcounted.counters db_ninode (by decide) (by decide),
      show db_ninode = DynamicField.db_ninode.field from rfl, hread]
    show (2 ^ 64 - 2 + 2) % 2 ^ 64 = 0 % 2 ^ 64
    decide
  · have hread := unallocated_counter h (f := .fd_ireg) (by decide) (by decide) hlt hlt
    rw [hcounted.counters db_part_fd_ireg (by decide) (by decide),
      show db_part_fd_ireg = DynamicField.fd_ireg.field from rfl, hread]
    rfl

/-- The blocks in front of the data are in use, and no others. -/
theorem Counted.ledger (h : c.Handled) {l : List Nat}
    (hcounted : Counted (c.geometry h) c.mDiskSizeInBlocks (unallocated c) image l)
    (hperm : l.Perm (List.range (c.sfsStart + 1))) :
    BlockLedger (c.geometry h) c.mDiskSizeInBlocks image fun _ => False := by
  have hused : ∀ n < (c.geometry h).capacity,
      image.mapBit (c.geometry h).mapStart n = true ↔ n < (c.geometry h).dataStart := by
    intro n hn
    rw [hcounted.used_iff n hn, hperm.mem_iff, List.mem_range]
    rfl
  have hlen : l.length = image.usedBlocks (c.geometry h) := by
    unfold usedBlocks
    rw [usedCount_of_lt_iff hused (h.dataStart_le), hperm.length_eq, List.length_range]
    rfl
  refine ⟨fun n hn => ?_, fun n hn hbit m hm => ?_, ?_, ?_⟩
  · rw [hused n hn, or_false]
  · rw [hused m (Nat.lt_trans hm hn)]
    exact Nat.lt_trans hm ((hused n hn).mp hbit)
  · rw [← hlen]
    exact hcounted.tfree
  · rw [← hlen]
    exact hcounted.avail

/-- The first two inodes are in use, and no others. -/
theorem CountedINodes.ledger {g : Geometry} {iNodeCnt : Nat} {image0 : DiskImage}
    (h : CountedINodes g iNodeCnt image0 image [0, 1]) :
    INodeLedger g iNodeCnt image fun _ => False := by
  have hused : ∀ i < cBlockSize * 64, image.mapBit g.iNodeStart i = true ↔ i < 2 := by
    intro i hi
    rw [h.used_iff i hi, List.mem_cons, List.mem_singleton]
    omega
  have hcount : image.usedINodes g = 2 := usedCount_of_lt_iff hused (by decide)
  refine ⟨fun i hi => ?_, ?_, ?_, ?_⟩
  · rw [hused i hi, or_false]
  · rw [hcount]
    exact h.ifree
  · rw [hcount]
    exact h.ninode
  · rw [hcount]
    exact h.ireg

/-- **`CreateSuperBlock` makes an empty file system.** -/
theorem createSuperBlock_sound (h : c.Handled) (hnames : c.NamesFit) :
    ∃ image', createSuperBlock c empty = (.ok (), image') ∧
      Sound (c.geometry h) c.mDiskSizeInBlocks c.iNodeCnt image' (fun _ => none) (fun _ => []) ∧
        (image'.read getSuperBlock s_root).toNat = 2 := by
  -- the blocks
  have hperm := systemBlocks_perm c
  obtain ⟨image4, hblocks, hcounted⟩ := allocateEach_ok
    (I := Counted (c.geometry h) c.mDiskSizeInBlocks (unallocated c))
    (fun image l n hI hn hfresh => ⟨_, hI.allocateBlock hn hfresh⟩) (unallocated_counted h)
    (fun n hn => Nat.lt_of_lt_of_le (List.mem_range.mp (hperm.mem_iff.mp hn)) h.dataStart_le)
    (hperm.nodup_iff.mpr List.nodup_range)
  rw [List.nil_append] at hcounted
  -- the inodes
  have hsame : image4.mStorage SUPERB = (withSuper c).mStorage SUPERB :=
    (hcounted.beside SUPERB (c.geometry h).super_not_administered).trans unallocated_super
  have hroot : (image4.read getSuperBlock s_root).toNat = 2 := by
    rw [read_congr hsame, (withSuper_fields h).2.2.2.2.1]
  have htwo : ∀ n ∈ List.range 2, n < cBlockSize * 64 := by decide
  obtain ⟨image', hiNodes, hcountedI⟩ := allocateEach_ok
    (I := CountedINodes (c.geometry h) c.iNodeCnt image4)
    (fun image l n hI hn hfresh => ⟨_, hI.allocateINodeIdx hn hfresh⟩) (hcounted.iNodes h)
    htwo List.nodup_range
  have hsuper : assignSuper c empty = (.ok (), withSuper c) := assignSuper_eq hnames _
  have hrun : createSuperBlock c empty = (.ok (), image') := by
    unfold createSuperBlock
    rw [Run.bind_apply_ok hsuper, Run.bind_apply_ok (assignDynamic_eq h),
      Run.bind_apply_ok (Run.modify_apply _ _)]
    refine (Run.bind_apply_ok hblocks).trans ((Run.bind_apply_ok (Run.get_apply _)).trans ?_)
    rw [hroot]
    exact hiNodes
  -- what an allocation of an inode leaves alone
  have hsuper_ne : SUPERB ≠ (c.geometry h).dynamicBlock ∧ SUPERB ≠ (c.geometry h).iNodeStart := by
    have hlow := (c.geometry h).super_lt
    have hmap := (c.geometry h).map_le
    have hdynamic := (c.geometry h).dynamic_lt
    omega
  have hledger : BlockLedger (c.geometry h) c.mDiskSizeInBlocks image' fun _ => False := by
    refine (hcounted.ledger h hperm).congr_map (fun page hpage w _ => ?_)
      (hcountedI.counters _ (by decide) (by decide) (by decide))
      (hcountedI.counters _ (by decide) (by decide) (by decide))
    have hmap := (c.geometry h).map_le
    have hdynamic := (c.geometry h).dynamic_lt
    rw [hcountedI.beside _ (by omega) (by omega)]
  refine ⟨image', hrun, ⟨hcountedI.formatted, hledger.of_iff fun b => ?_,
    hcountedI.ledger.of_iff fun i => ?_,
    fun i node hi => absurd hi (by simp), fun i hi _ w _ => ?_, fun _ _ => rfl,
    fun _ => List.nodup_nil, fun i j b hb => absurd hb List.not_mem_nil,
    fun i b hb => absurd hb List.not_mem_nil⟩, ?_⟩
  · refine iff_of_false ?_ id
    rintro ⟨_, hb⟩
    exact absurd hb List.not_mem_nil
  · exact iff_of_false (fun hne => hne rfl) id
  · obtain ⟨hlow, -⟩ := hi.between
    have hhigh : ((c.geometry h).iNode i).block < c.sfsStart := by
      have hrow : i / 16 + 1 < c.iNodeBlockCnt := hi
      have hblock : ((c.geometry h).iNode i).block = c.iNodeStart + 1 + i / 16 := rfl
      have hsfs : c.sfsStart = c.iNodeStart + c.iNodeBlockCnt := rfl
      omega
    have hdynamic := (c.geometry h).dynamic_lt
    rw [hcountedI.beside _ (by omega) (by omega),
      hcounted.beside _ (Geometry.not_administers (Nat.le_of_lt hlow)),
      unallocated_iNodes (Nat.le_of_lt hlow) hhigh]
  · rw [read_congr (hcountedI.beside SUPERB hsuper_ne.1 hsuper_ne.2), hroot]

end create

end Mkfs

end CraySim
