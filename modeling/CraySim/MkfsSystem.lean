/-
  Subject:   A file system and the image that holds it.

  A file system says which inodes are in use, and for what. The image holds it when the inodes, the
  blocks, both maps and all counters agree with it; no block belongs to two inodes.

  * `Node`, `HasNode`, `HasNode.congr` -- directories and files,
  * `FileSystem`, `Sound` -- the file system, and the image that holds it,
  * `Sound.update` -- a node changes,
  * `Sound.create` -- a node is made,
  * `Blank.newFile`, `Blank.newDir` -- files and directories as they are made.
-/
import CraySim.MkfsNode

namespace CraySim

namespace Mkfs

open FirstFit ExtentFile DiskImage

/-! ## 1. Nodes -/

/-- What an inode is in use for. -/
inductive Node where
  | dir (entries : List Entry)
  | file (content : Chars)

/-- The image has the node, in the inode and in its blocks. -/
def HasNode (image : DiskImage) (p : Pointer) (exts : List Extent) : Node → Prop
  | .dir entries => HasDirectory image p exts entries
  | .file content => HasFile image p exts content

theorem HasNode.congr {image image' : DiskImage} {p : Pointer} {exts : List Extent} {node : Node}
    (h : HasNode image p exts node) (hsame : SameINode p image image')
    (hblocks : ∀ b ∈ blocks exts, ∀ w < cBlockSize, image'.mStorage b w = image.mStorage b w) :
    HasNode image' p exts node := by
  cases node with
  | dir entries => exact HasDirectory.congr h hsame hblocks
  | file content => exact HasFile.congr h hsame hblocks

/-- An inode that was never used. -/
def Blank (image : DiskImage) (p : Pointer) : Prop :=
  ∀ w < 32, image.mStorage p.block (p.ofs + w) = 0

/-! ## 2. The image of a file system -/

/-- The inodes that are in use. -/
abbrev FileSystem := Nat → Option Node

/-- The blocks of the other inodes. -/
def OthersOwn (exts : Nat → List Extent) (i : Nat) : Nat → Prop := fun b =>
  ∃ j, j ≠ i ∧ b ∈ blocks (exts j)

/-- **The image holds the file system.** -/
structure Sound (g : Geometry) (diskSize iNodeCnt : Nat) (image : DiskImage) (fs : FileSystem)
    (exts : Nat → List Extent) : Prop where
  formatted : Formatted g image
  ledger : BlockLedger g diskSize image fun b => ∃ i, b ∈ blocks (exts i)
  iNodes : INodeLedger g iNodeCnt image fun i => fs i ≠ none
  node : ∀ i node, fs i = some node → 2 ≤ i ∧ g.HasINode i ∧ HasNode image (g.iNode i) (exts i) node
  blank : ∀ i, g.HasINode i → fs i = none → Blank image (g.iNode i)
  unowned : ∀ i, fs i = none → exts i = []
  nodup : ∀ i, (blocks (exts i)).Nodup
  disjoint : ∀ i j b, b ∈ blocks (exts i) → b ∈ blocks (exts j) → i = j
  place : ∀ i, ∀ b ∈ blocks (exts i), g.dataStart ≤ b ∧ b < g.capacity

section sound
variable {g : Geometry} {diskSize iNodeCnt i : Nat} {image image' : DiskImage} {fs : FileSystem}
  {exts : Nat → List Extent} {exts' : List Extent} {node : Node}

theorem Sound.owning (h : Sound g diskSize iNodeCnt image fs exts) (i : Nat) :
    Owning g diskSize image (OthersOwn exts i) (exts i) := by
  refine ⟨h.formatted, h.ledger.of_iff fun b => ⟨?_, ?_⟩, fun b hb => ?_, h.nodup i, h.place i⟩
  · rintro (⟨j, -, hb⟩ | hb)
    · exact ⟨j, hb⟩
    · exact ⟨i, hb⟩
  · rintro ⟨j, hb⟩
    by_cases hj : j = i
    · subst hj
      exact Or.inr hb
    · exact Or.inl ⟨j, hj, hb⟩
  · rintro ⟨j, hj, hb'⟩
    exact hj (h.disjoint j i b hb' hb)

theorem iNode_apart {j w : Nat} (hj : j ≠ i) (hblock : (g.iNode j).block = (g.iNode i).block)
    (hw : w < 32) : (g.iNode j).ofs + w < (g.iNode i).ofs ∨
      (g.iNode i).ofs + 32 ≤ (g.iNode j).ofs + w := by
  have hsize : cBlockSize / 32 = 16 := rfl
  unfold Geometry.iNode at hblock ⊢
  rw [hsize] at hblock ⊢
  simp only at hblock ⊢
  omega

/-- A change of one node leaves the inodes of the others alone. -/
theorem OnlyNode.sameINode (h : OnlyNode g (g.iNode i) exts' image image') {j : Nat} (hj : j ≠ i)
    (hiNode : g.HasINode j) (hplace : ∀ b ∈ blocks exts', g.dataStart ≤ b) :
    SameINode (g.iNode j) image image' := by
  intro w hw
  obtain ⟨hlow, hhigh⟩ := hiNode.between
  by_cases hblock : (g.iNode j).block = (g.iNode i).block
  · rw [hblock]
    exact h.words _ (iNode_apart hj hblock hw)
  · rw [h.beside _ (Geometry.not_administers (Nat.le_of_lt hlow)) hblock fun hb =>
      Nat.lt_irrefl _ (Nat.lt_of_lt_of_le hhigh (hplace _ hb))]

/-- **A node changes.** -/
theorem Sound.update (h : Sound g diskSize iNodeCnt image fs exts) (hi : fs i ≠ none)
    (hown : Owning g diskSize image' (OthersOwn exts i) exts')
    (hnode : HasNode image' (g.iNode i) exts' node)
    (honly : OnlyNode g (g.iNode i) exts' image image') :
    Sound g diskSize iNodeCnt image' (Function.update fs i (some node))
      (Function.update exts i exts') := by
  obtain ⟨old, hold⟩ := Option.ne_none_iff_exists'.mp hi
  obtain ⟨htwo, hiNode, -⟩ := h.node i old hold
  have hp := hiNode.between
  have hplace : ∀ b ∈ blocks exts', g.dataStart ≤ b := fun b hb => (hown.place b hb).1
  have hnone : ∀ j, Function.update fs i (some node) j = none → j ≠ i ∧ fs j = none := by
    intro j hj
    by_cases hji : j = i
    · rw [hji, Function.update_self] at hj
      cases hj
    · rw [Function.update_of_ne hji] at hj
      exact ⟨hji, hj⟩
  have hothers : ∀ j b, j ≠ i → b ∈ blocks (exts j) → b ∉ blocks exts' := fun j b hj hb hb' =>
    hown.apart b hb' ⟨j, hj, hb⟩
  refine ⟨hown.formatted, hown.ledger.of_iff fun b => ⟨?_, ?_⟩, ?_, fun j node' hj => ?_,
    fun j hj hfree => ?_, fun j hj => ?_, fun j => ?_, fun j k b hb hb' => ?_, fun j b hb => ?_⟩
  · rintro ⟨j, hb⟩
    by_cases hji : j = i
    · rw [hji, Function.update_self] at hb
      exact Or.inr hb
    · rw [Function.update_of_ne hji] at hb
      exact Or.inl ⟨j, hji, hb⟩
  · rintro (⟨j, hji, hb⟩ | hb)
    · exact ⟨j, by rw [Function.update_of_ne hji]; exact hb⟩
    · exact ⟨i, by rw [Function.update_self]; exact hb⟩
  · have hmap := honly.beside g.iNodeStart (Geometry.not_administers (Nat.le_refl _))
      (Nat.ne_of_lt hp.1) fun hb =>
        Nat.lt_irrefl _ (Nat.lt_of_lt_of_le g.iNode_lt_data (hplace _ hb))
    have hcounters : ∀ f ∈ [db_ifree, db_ninode, db_part_fd_ireg],
        image'.counter g f = image.counter g f := by
      intro f hf
      simp only [List.mem_cons, List.not_mem_nil, or_false] at hf
      rcases hf with rfl | rfl | rfl <;> exact honly.counters _ (by decide) (by decide)
    have hledger := h.iNodes.congr hcounters fun w _ => congrFun hmap w
    refine hledger.of_iff fun j => ?_
    by_cases hji : j = i
    · rw [hji, Function.update_self]
      exact iff_of_true (Option.some_ne_none node) hi
    · rw [Function.update_of_ne hji]
  · by_cases hji : j = i
    · subst hji
      rw [Function.update_self] at hj ⊢
      obtain rfl := Option.some.inj hj
      exact ⟨htwo, hiNode, hnode⟩
    · rw [Function.update_of_ne hji] at hj ⊢
      obtain ⟨htwo', hiNode', hnode'⟩ := h.node j node' hj
      refine ⟨htwo', hiNode', hnode'.congr (honly.sameINode hji hiNode' hplace) fun b hb w _ => ?_⟩
      obtain ⟨hlow, -⟩ := h.place j b hb
      rw [honly.beside b
        (Geometry.not_administers (Nat.le_of_lt (Nat.lt_of_lt_of_le g.iNode_lt_data hlow)))
        (Nat.ne_of_gt (Nat.lt_of_lt_of_le hp.2 hlow)) (hothers j b hji hb)]
  · obtain ⟨hji, hfree'⟩ := hnone j hfree
    intro w hw
    rw [honly.sameINode hji hj hplace w hw]
    exact h.blank j hj hfree' w hw
  · obtain ⟨hji, hfree⟩ := hnone j hj
    rw [Function.update_of_ne hji]
    exact h.unowned j hfree
  · by_cases hji : j = i
    · rw [hji, Function.update_self]
      exact hown.nodup
    · rw [Function.update_of_ne hji]
      exact h.nodup j
  · by_cases hji : j = i <;> by_cases hki : k = i
    · exact hji.trans hki.symm
    · rw [hji, Function.update_self] at hb
      rw [Function.update_of_ne hki] at hb'
      exact absurd hb (hothers k b hki hb')
    · rw [Function.update_of_ne hji] at hb
      rw [hki, Function.update_self] at hb'
      exact absurd hb' (hothers j b hji hb)
    · rw [Function.update_of_ne hji] at hb
      rw [Function.update_of_ne hki] at hb'
      exact h.disjoint j k b hb hb'
  · by_cases hji : j = i
    · rw [hji, Function.update_self] at hb
      exact hown.place b hb
    · rw [Function.update_of_ne hji] at hb
      exact h.place j b hb

/-! ## 3. New nodes -/

section fields
variable {p : Pointer} {fields : List (InodeField × Nat)}

theorem setFields_of_ne {b : Nat} (h : b ≠ p.block) :
    (image.setFields p fields).mStorage b = image.mStorage b := by
  unfold setFields
  induction fields generalizing image with
  | nil => rfl
  | cons f fields ih =>
    rw [List.foldl_cons, ih]
    exact writeINode_of_ne h

theorem setFields_word {w : Nat} (h : ∀ f ∈ fields, w ≠ p.ofs + f.1.field.tOfs) :
    (image.setFields p fields).mStorage p.block w = image.mStorage p.block w := by
  unfold setFields
  induction fields generalizing image with
  | nil => rfl
  | cons f fields ih =>
    rw [List.foldl_cons, ih fun f' hf' => h f' (List.mem_cons_of_mem _ hf')]
    exact writeINode_word (h f List.mem_cons_self)

theorem setFields_outside {w : Nat} (h : w < p.ofs ∨ p.ofs + 32 ≤ w) :
    (image.setFields p fields).mStorage p.block w = image.mStorage p.block w := by
  refine setFields_word fun f _ => ?_
  have hf := f.1.tOfs_lt
  omega

end fields

/-- **A node is made**: an inode that was never used is taken from the map, and its fields are
    assigned. -/
theorem Sound.create (h : Sound g diskSize iNodeCnt image fs exts) (hi : g.HasINode i)
    (htwo : 2 ≤ i) (hsmall : i < cBlockSize * 64) (hfree : fs i = none)
    {fields : List (InodeField × Nat)}
    (hnode : ∀ image1, Blank image1 (g.iNode i) →
      HasNode (image1.setFields (g.iNode i) fields) (g.iNode i) [] node) :
    image.mapBit g.iNodeStart i = false ∧
      Sound g diskSize iNodeCnt ((image.takeINode g i).setFields (g.iNode i) fields)
        (Function.update fs i (some node)) exts := by
  have hp := hi.between
  have hdynamic := g.dynamic_lt
  have hdata := g.iNode_lt_data
  have hbit : image.mapBit g.iNodeStart i = false := by
    refine Bool.eq_false_of_not_eq_true fun hused => ?_
    rcases (h.iNodes.used_iff i hsmall).mp hused with hlt | hne
    · omega
    · exact hne hfree
  refine ⟨hbit, ?_⟩
  generalize himage : (image.takeINode g i).setFields (g.iNode i) fields = image'
  have hother : ∀ b, b ≠ g.dynamicBlock → b ≠ g.iNodeStart → b ≠ (g.iNode i).block →
      image'.mStorage b = image.mStorage b := by
    intro b h1 h2 h3
    rw [← himage, setFields_of_ne h3, takeINode_of_ne hsmall h1 h2]
  have hwords : ∀ w, w < (g.iNode i).ofs ∨ (g.iNode i).ofs + 32 ≤ w →
      image'.mStorage (g.iNode i).block w = image.mStorage (g.iNode i).block w := by
    intro w hw
    rw [← himage, setFields_outside hw, takeINode_of_ne hsmall (by omega) (by omega)]
  have hcounter : ∀ f, image'.counter g f = (image.takeINode g i).counter g f := by
    intro f
    rw [← himage]
    exact congrArg BitVec.toNat (read_congr (p := ⟨g.dynamicBlock, 0⟩)
      (setFields_of_ne (by simp only; omega)) f)
  have hkeep : ∀ f : IntField, db_ifree.Apart f → db_ninode.Apart f → db_part_fd_ireg.Apart f →
      image'.counter g f = image.counter g f := by
    intro f h1 h2 h3
    rw [hcounter]
    exact congrArg BitVec.toNat ((@takeINode_read g image i).2.2.2 f h1 h2 h3)
  have hsame : ∀ j, j ≠ i → g.HasINode j → SameINode (g.iNode j) image image' := by
    intro j hji hj w hw
    obtain ⟨hlow, hhigh⟩ := hj.between
    by_cases hblock : (g.iNode j).block = (g.iNode i).block
    · rw [hblock]
      exact hwords _ (iNode_apart hji hblock hw)
    · rw [hother _ (by omega) (by omega) hblock]
  have hne : ∀ j, Function.update fs i (some node) j ≠ none ↔ fs j ≠ none ∨ j = i := by
    intro j
    by_cases hji : j = i
    · subst hji
      rw [Function.update_self]
      exact iff_of_true (Option.some_ne_none node) (Or.inr rfl)
    · rw [Function.update_of_ne hji]
      exact ⟨Or.inl, fun hj => hj.resolve_right hji⟩
  have hnone : ∀ j, Function.update fs i (some node) j = none → j ≠ i ∧ fs j = none := by
    intro j hj
    have hboth := (hne j).not.mp (not_not.mpr hj)
    exact ⟨fun hji => hboth (Or.inr hji), not_not.mp fun hj' => hboth (Or.inl hj')⟩
  refine ⟨h.formatted.congr (hother _ ?_ ?_ ?_), h.ledger.congr_map (fun page hpage w _ => ?_)
    (hkeep _ (by decide) (by decide) (by decide)) (hkeep _ (by decide) (by decide) (by decide)),
    ?_, fun j node' hj => ?_, fun j hj hfree' => ?_, fun j hj => ?_, h.nodup, h.disjoint, h.place⟩
  · have hsuper := g.super_lt
    have hmap := g.map_le
    omega
  · exact Nat.ne_of_lt g.super_lt_iNode
  · exact Nat.ne_of_lt (Nat.lt_trans g.super_lt_iNode hp.1)
  · have hmap := g.map_le
    rw [hother _ (by omega) (by omega) (by omega)]
  · have hledger : INodeLedger g iNodeCnt image' fun j => fs j ≠ none ∨ j = i :=
      (h.iNodes.takeINode hsmall hbit).congr (fun f _ => hcounter f) fun w _ => by
        rw [← himage, setFields_of_ne (Nat.ne_of_lt hp.1)]
    exact hledger.of_iff hne
  · by_cases hji : j = i
    · subst hji
      rw [Function.update_self] at hj
      obtain rfl := Option.some.inj hj
      refine ⟨htwo, hi, ?_⟩
      rw [h.unowned j hfree, ← himage]
      refine hnode _ fun w hw => ?_
      rw [takeINode_of_ne hsmall (by omega) (by omega)]
      exact h.blank j hi hfree w hw
    · rw [Function.update_of_ne hji] at hj
      obtain ⟨htwo', hiNode', hnode'⟩ := h.node j node' hj
      refine ⟨htwo', hiNode', hnode'.congr (hsame j hji hiNode') fun b hb w _ => ?_⟩
      have hlow := (h.place j b hb).1
      rw [hother b (by omega) (by omega) (by omega)]
  · obtain ⟨hji, hfree''⟩ := hnone j hfree'
    intro w hw
    rw [hsame j hji hj w hw]
    exact h.blank j hj hfree'' w hw
  · exact h.unowned j (hnone j hj).2

/-! ## 4. Files and directories as they are made -/

/-- A mode without a type. -/
def PlainMode (aMode : Nat) : Prop := aMode < 2 ^ 24 ∧ aMode &&& IFMT = 0

theorem PlainMode.or {aMode type : Nat} (h : PlainMode aMode) (htype : type < 2 ^ 24)
    (hmask : type &&& IFMT = type) :
    (type ||| aMode) &&& IFMT = type ∧ (type ||| aMode) < 2 ^ 24 := by
  refine ⟨?_, Nat.or_lt_two_pow htype h.1⟩
  rw [Nat.and_or_distrib_right, hmask, h.2, Nat.or_zero]

section blank
variable {p : Pointer}

theorem get_zero (f : IntField) {mem : Words} {aBase : Nat} (h : mem (aBase + f.tOfs) = 0) :
    f.get mem aBase = 0 := by
  have hswap : swapBytes 0 = 0 := by decide
  apply BitVec.eq_of_toNat_eq
  rw [IntField.get_eq, h, hswap, BitVec.toNat_setWidth, WordField.toNat_get]
  simp only [BitVec.ofNat_eq_ofNat, BitVec.toNat_ofNat, Nat.zero_mod, Nat.zero_div]

theorem Blank.hasExtents (h : Blank image p) {fields : List (InodeField × Nat)}
    (hfields : ∀ f ∈ fields, f.1.field.tOfs ≠ 16) :
    HasExtents (image.setFields p fields) p [] := by
  have hword : (image.setFields p fields).mStorage p.block (p.ofs + 16) = 0 := by
    rw [setFields_word fun f hf => by have := hfields f hf; omega]
    exact h 16 (by decide)
  refine ⟨by decide, fun j hj => absurd hj (Nat.not_lt_zero j), fun _ => ⟨?_, ?_⟩⟩
  · exact congrArg BitVec.toNat (get_zero _ hword)
  · exact congrArg BitVec.toNat (get_zero _ hword)

/-- A field keeps its number, where those assigned after it stand apart. -/
theorem readINode_setFields {image : DiskImage} {f : InodeField} {v : Nat}
    (before : List (InodeField × Nat)) {after : List (InodeField × Nat)}
    (hv : v < 2 ^ f.field.digits) (hsize : v < 2 ^ f.field.tSize)
    (hafter : ∀ g ∈ after, g.1.field.Apart f.field) :
    (image.setFields p (before ++ (f, v) :: after)).readINode p f = v := by
  have hkept : ∀ (image : DiskImage), (image.setFields p after).readINode p f =
      image.readINode p f := by
    clear hv hsize
    induction after with
    | nil => exact fun _ => rfl
    | cons g after ih =>
      intro image
      obtain ⟨hg, hafter⟩ := List.forall_mem_cons.mp hafter
      exact (ih hafter _).trans (readINode_writeINode_of_apart hg)
  rw [setFields, List.foldl_append, List.foldl_cons]
  exact (hkept _).trans (readINode_writeINode hv hsize)

/-- **A new file** has no bytes. -/
theorem Blank.newFile (h : Blank image p) (aUID aGID : Nat) {aMode : Nat}
    (hmode : PlainMode aMode) :
    HasNode (image.setFields p (fileFields aUID aGID aMode)) p [] (.file []) := by
  obtain ⟨htype, hsmall⟩ := hmode.or (show IFREG < 2 ^ 24 by decide) (by decide)
  refine ⟨?_, h.hasExtents (by simp [fileFields, InodeField.field, SFSLK_SZ]),
    fun e he => absurd he List.not_mem_nil, ?_, ?_, ?_, holds_nil _ _⟩
  · refine (congrArg (· &&& IFMT) ?_).trans htype
    exact readINode_setFields [] (Nat.lt_trans hsmall (by decide)) hsmall (by simp; decide)
  · exact readINode_setFields [_, _, _, _] (by decide) (by decide) (by simp; decide)
  · refine congrArg BitVec.toNat (get_zero _ ?_)
    rw [setFields_word (by simp [fileFields, InodeField.field, SFSLK_SZ])]
    exact h 5 (by decide)
  · exact ⟨by decide, by decide⟩

/-- **A new directory** has no entry. -/
theorem Blank.newDir (h : Blank image p) (aUID aGID : Nat) {aMode : Nat} (hmode : PlainMode aMode) :
    HasNode (image.setFields p (dirFields aUID aGID aMode)) p [] (.dir []) := by
  obtain ⟨htype, hsmall⟩ := hmode.or (show IFDIR < 2 ^ 24 by decide) (by decide)
  have hext : HasExtents (image.setFields p (dirFields aUID aGID aMode)) p [] :=
    h.hasExtents (by simp [dirFields, InodeField.field, SFSLK_SZ])
  obtain ⟨hblk, hnblks⟩ := hext.none rfl
  refine ⟨?_, hnblks, ?_, Or.inl ⟨rfl, rfl, hblk⟩⟩
  · refine (congrArg (· &&& IFMT) ?_).trans htype
    exact readINode_setFields [] (Nat.lt_trans hsmall (by decide)) hsmall (by simp; decide)
  · exact readINode_setFields [_, _, _, _] (by decide) (by decide) (by simp; decide)

end blank

end sound

end Mkfs

end CraySim
