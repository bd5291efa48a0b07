/-
  Subject:   Runs of the program that makes a file system.

  The program makes an empty file system, and any number of calls follow. What a call does to the
  file system is said once, without blocks and inodes; the image follows it, call by call.

  * `Call`, `Call.run`, `Call.apply` -- the calls, and what they do to the file system,
  * `Call.Allowed`, `AllAllowed` -- what a call relies on,
  * `Represents.call`, `Represents.calls` -- one call, and a run,
  * `initialFs`, `makeFs_cases` -- the file system the program starts with.
-/
import CraySim.MkfsEmpty
import CraySim.MkfsRead

namespace CraySim

namespace Mkfs

open FirstFit ExtentFile DiskImage

/-! ## 1. Calls -/

/-- The calls, with their arguments. -/
inductive Call where
  | mkDir (parent : BitVec 32) (aName : Chars) (aUID aGID aMode : Nat)
  | mkFile (parent : BitVec 32) (aName : Chars) (aUID aGID aMode : Nat)
  | copyFile (parent : BitVec 32) (aName localFile : Chars) (aUID aGID aMode : Nat)
  | appendToFile (aINode : BitVec 32) (aData : Chars)

/-- A call on the image. -/
def Call.run : Call → Run MkfsExn DiskImage Unit
  | .mkDir parent aName aUID aGID aMode => do
    let _ ← DiskImage.mkDir parent aName aUID aGID aMode
    pure ()
  | .mkFile parent aName aUID aGID aMode => do
    let _ ← DiskImage.mkFile parent aName aUID aGID aMode
    pure ()
  | .copyFile parent aName localFile aUID aGID aMode =>
    DiskImage.copyFile parent aName localFile aUID aGID aMode
  | .appendToFile aINode aData => DiskImage.appendToFile aINode aData

/-- The calls, one after the other. -/
def runCalls : List Call → Run MkfsExn DiskImage Unit
  | [] => pure ()
  | call :: rest => do
    call.run
    runCalls rest

/-- The first inode that is not in use. -/
def FileSystem.leastFree (fs : FileSystem) : Nat :=
  ((List.range (cBlockSize * 64)).find? fun i => 2 ≤ i && (fs i).isNone).getD 0

/-- The entries of a directory. -/
def FileSystem.entries (fs : FileSystem) (i : Nat) : List Entry :=
  match fs i with
  | some (.dir entries) => entries
  | _ => []

/-- The bytes of a file. -/
def FileSystem.content (fs : FileSystem) (i : Nat) : Chars :=
  match fs i with
  | some (.file content) => content
  | _ => []

/-- A new node, named in its parent. -/
def FileSystem.add (fs : FileSystem) (parent : BitVec 32) (name : Chars) (node : Nat → Node) :
    FileSystem :=
  fs.link parent.toNat (fs.entries parent.toNat) fs.leastFree name (node fs.leastFree)

/-- **What a call does to the file system.** -/
def Call.apply (fs : FileSystem) : Call → FileSystem
  | .mkDir parent aName _ _ _ => fs.add parent aName fun i => .dir (dots i (parent.setWidth 64))
  | .mkFile parent aName _ _ _ => fs.add parent aName fun _ => .file []
  | .copyFile parent aName localFile _ _ _ => fs.add parent aName fun _ => .file localFile
  | .appendToFile aINode aData =>
    Function.update fs aINode.toNat (some (.file (fs.content aINode.toNat ++ aData)))

/-- A new node has a directory for its name, a name of less than 1024 bytes, and an inode. -/
def FileSystem.CanAdd (fs : FileSystem) (g : Geometry) (parent : BitVec 32) (aName : Chars)
    (aMode : Nat) : Prop :=
  (∃ entries, fs parent.toNat = some (.dir entries)) ∧ aName.length < 2 ^ 10 ∧ PlainMode aMode ∧
    HasINodeLeft g fs

/-- What a call relies on. -/
def Call.Allowed (g : Geometry) (fs : FileSystem) : Call → Prop
  | .mkDir parent aName _ _ aMode => fs.CanAdd g parent aName aMode
  | .mkFile parent aName _ _ aMode => fs.CanAdd g parent aName aMode
  | .copyFile parent aName _ _ _ aMode => fs.CanAdd g parent aName aMode
  | .appendToFile aINode aData =>
    (∃ content, fs aINode.toNat = some (.file content)) ∧ Countable aData

/-- Every call may rely on it, in the file system the calls before it made. -/
def AllAllowed (g : Geometry) : FileSystem → List Call → Prop
  | _, [] => True
  | fs, call :: rest => call.Allowed g fs ∧ AllAllowed g (call.apply fs) rest

/-! ## 2. A call, and a run -/

theorem LeastFree.le_of_free {fs : FileSystem} {i j : Nat} (h : LeastFree fs i) (hj : 2 ≤ j)
    (hfree : fs j = none) : i ≤ j :=
  Nat.le_of_not_lt fun hlt => h.least j hj hlt hfree

theorem LeastFree.eq_leastFree {fs : FileSystem} {i : Nat} (h : LeastFree fs i)
    (hi : i < cBlockSize * 64) : fs.leastFree = i := by
  have hfound : (List.range (cBlockSize * 64)).find? (fun i => 2 ≤ i && (fs i).isNone) =
      some i := by
    rw [List.find?_range_eq_some]
    refine ⟨?_, List.mem_range.mpr hi, fun j hj => ?_⟩
    · rw [decide_eq_true h.two_le, h.free]
      rfl
    · by_cases htwo : 2 ≤ j
      · have hused := h.least j htwo hj
        rw [Option.ne_none_iff_isSome] at hused
        cases hnode : fs j with
        | none =>
          rw [hnode] at hused
          cases hused
        | some node =>
          rw [Option.isNone_some, Bool.and_false]
          rfl
      · rw [decide_eq_false htwo, Bool.false_and]
        rfl
  unfold FileSystem.leastFree
  rw [hfound]
  rfl

section runs
variable {g : Geometry} {diskSize iNodeCnt : Nat} {image image' : DiskImage} {fs : FileSystem}

theorem FileSystem.add_eq {parent : BitVec 32} {entries : List Entry} {i : Nat}
    (hparent : fs parent.toNat = some (.dir entries)) (hleast : LeastFree fs i)
    (hi : i < cBlockSize * 64) (name : Chars) (node : Nat → Node) :
    fs.add parent name node = fs.link parent.toNat entries i name (node i) := by
  unfold FileSystem.add FileSystem.entries
  rw [hparent, hleast.eq_leastFree hi]

theorem represents_add {α : Type} {m : Run MkfsExn DiskImage α} {result : Nat → α} {a : α}
    {fits : Nat → Prop} {parent : BitVec 32} {entries : List Entry} {name : Chars}
    {node : Nat → Node} (hparent : fs parent.toNat = some (.dir entries))
    (h : ∃ i, LeastFree fs i ∧ i < cBlockSize * 64 ∧
      ((∃ exn image', m image = (.error exn, image') ∧ ¬ fits i) ∨
        ∃ image', m image = (.ok (result i), image') ∧
          Represents g diskSize iNodeCnt image' (fs.link parent.toNat entries i name (node i))))
    (hrun : m image = (.ok a, image')) :
    Represents g diskSize iNodeCnt image' (fs.add parent name node) := by
  obtain ⟨i, hleast, hi, ⟨exn, image2, herr, -⟩ | ⟨image2, hok, hnew⟩⟩ := h
  · rw [herr] at hrun
    cases hrun
  · rw [hok] at hrun
    cases hrun
    rw [FileSystem.add_eq hparent hleast hi]
    exact hnew

/-- **A call that returns** does to the image what it does to the file system. -/
theorem Represents.call (h : Represents g diskSize iNodeCnt image fs) {call : Call}
    (hallowed : call.Allowed g fs) (hrun : call.run image = (.ok (), image')) :
    Represents g diskSize iNodeCnt image' (call.apply fs) := by
  cases call with
  | mkDir parent aName aUID aGID aMode =>
    obtain ⟨⟨entries, hparent⟩, hname, hmode, hroom⟩ := hallowed
    obtain ⟨idx, image1, hmk, hpure⟩ := Run.bind_eq_ok hrun
    cases hpure
    rw [Call.apply]
    exact represents_add hparent (h.mkDir hparent hroom hname aUID aGID hmode) hmk
  | mkFile parent aName aUID aGID aMode =>
    obtain ⟨⟨entries, hparent⟩, hname, hmode, hroom⟩ := hallowed
    obtain ⟨idx, image1, hmk, hpure⟩ := Run.bind_eq_ok hrun
    cases hpure
    rw [Call.apply]
    exact represents_add hparent (h.mkFile hparent hroom hname aUID aGID hmode) hmk
  | copyFile parent aName localFile aUID aGID aMode =>
    obtain ⟨⟨entries, hparent⟩, hname, hmode, hroom⟩ := hallowed
    rw [Call.apply]
    exact represents_add hparent (h.copyFile hparent hroom hname localFile aUID aGID hmode) hrun
  | appendToFile aINode aData =>
    obtain ⟨⟨content, hfile⟩, hsmall⟩ := hallowed
    have hmk : DiskImage.appendToFile aINode aData image = (.ok (), image') := hrun
    rcases h.appendToFile hfile rfl hsmall with ⟨exn, image2, herr⟩ | ⟨image2, hok, hnew⟩
    · rw [herr] at hmk
      cases hmk
    · rw [hok] at hmk
      cases hmk
      have hcontent : fs.content aINode.toNat = content := by
        unfold FileSystem.content
        rw [hfile]
      show Represents _ _ _ _ (Function.update fs _ (some (.file (fs.content _ ++ aData))))
      rw [hcontent]
      exact hnew

/-- **A run**, call by call. -/
theorem Represents.calls {calls : List Call} :
    ∀ {image : DiskImage} {fs : FileSystem}, Represents g diskSize iNodeCnt image fs →
      AllAllowed g fs calls → runCalls calls image = (.ok (), image') →
        Represents g diskSize iNodeCnt image' (calls.foldl Call.apply fs) := by
  induction calls with
  | nil =>
    intro image fs h _ hrun
    cases hrun
    exact h
  | cons call rest ih =>
    intro image fs h hallowed hrun
    obtain ⟨_, image1, hcall, hrest⟩ := Run.bind_eq_ok hrun
    exact ih (h.call hallowed.1 hcall) hallowed.2 hrest

end runs

/-! ## 3. The file system the program starts with -/

/-- The root directory, and `lost+found` in it. -/
def initialFs : FileSystem := fun i =>
  if i = 2 then some (.dir (dots 2 2 ++ [⟨lostFound, 3⟩]))
  else if i = 3 then some (.dir (dots 3 2))
  else none

theorem hasINode_of_lt {c : FsParams} (h : c.Handled) {i : Nat} (hi : i < c.iNodeCnt) :
    (c.geometry h).HasINode i ∧ i < cBlockSize * 64 := by
  obtain ⟨-, -, -, -, hrow, hcnt⟩ := h.bounds
  have hsize : cBlockSize * 64 = 32768 := rfl
  refine ⟨?_, by omega⟩
  show i / 16 + 1 < c.iNodeBlockCnt
  omega

/-- The root directory alone. -/
def rootFs : FileSystem := Function.update (fun _ => none) 2 (some (.dir (dots 2 2)))

theorem initialFs_eq : initialFs = rootFs.link 2 (dots 2 2) 3 lostFound (.dir (dots 3 2)) := by
  funext i
  unfold initialFs FileSystem.link rootFs
  by_cases h2 : i = 2
  · rw [if_pos h2, h2, Function.update_self]
    rfl
  · rw [if_neg h2, Function.update_of_ne h2]
    by_cases h3 : i = 3
    · rw [if_pos h3, h3, Function.update_self]
    · rw [if_neg h3, Function.update_of_ne h3, Function.update_of_ne h2]

theorem LeastFree.eq_three {i : Nat} (h : LeastFree rootFs i) : i = 3 := by
  have hle := h.le_of_free (j := 3) (by decide) (Function.update_of_ne (by decide) _ _)
  have hne : i ≠ 2 := by
    rintro rfl
    have hfree := h.free
    unfold rootFs at hfree
    rw [Function.update_self] at hfree
    cases hfree
  have htwo := h.two_le
  omega

/-- **`MakeFs`** makes the root directory and `lost+found`, unless a name is too long or their
    blocks do not fit. -/
theorem makeFs_cases {c : FsParams} (h : c.Handled) :
    (∃ exn image, makeFs c empty = (.error exn, image) ∧
        ¬ (c.NamesFit ∧ initialFs.Fits (c.geometry h))) ∨
      ∃ image, makeFs c empty = (.ok (), image) ∧ c.NamesFit ∧
        Represents (c.geometry h) c.mDiskSizeInBlocks c.iNodeCnt image initialFs := by
  have hmode : PlainMode RT_MODE := ⟨by decide, by decide⟩
  have hfour := h.iNodes
  have htwo := hasINode_of_lt h (i := 2) (by omega)
  have hthree := hasINode_of_lt h (i := 3) (by omega)
  have hparent : rootFs (BitVec.ofNat 32 2).toNat = some (.dir (dots 2 2)) :=
    Function.update_self _ _ _
  unfold makeFs
  by_cases hnames : c.NamesFit
  · obtain ⟨image1, hcreate, hsound, hroot⟩ := createSuperBlock_sound h hnames
    rw [Run.bind_apply_ok hcreate]
    have hroot' : (image1.read getSuperBlock s_root).toNat % 2 ^ 32 = 2 := by
      rw [hroot]
      rfl
    have hrootFits : initialFs.Fits (c.geometry h) → rootFs.Fits (c.geometry h) := by
      intro hall
      rw [initialFs_eq] at hall
      refine hall.of_le (Nat.le_trans (FileSystem.blockCnt_le_of_free hthree.2 ?_ _)
        (FileSystem.blockCnt_le_concat htwo.2 ?_ _))
      · exact Function.update_of_ne (by decide) _ _
      · rw [Function.update_of_ne (by decide)]
        exact hparent
    rcases Represents.mkRoot ⟨_, hsound⟩ hroot' (Nat.le_refl 2) htwo.2 htwo.1 rfl [] RT_UID RT_GID
      hmode with ⟨exn, image', herr, hnot⟩ | ⟨image2, hok, h2⟩
    · refine Or.inl ⟨exn, image', Run.bind_apply_error herr, fun hall => hnot ?_⟩
      exact hrootFits hall.2
    · have hroom : HasINodeLeft (c.geometry h) rootFs :=
        ⟨3, by decide, hthree.2, hthree.1, Function.update_of_ne (by decide) _ _⟩
      have hname : lostFound.length < 2 ^ 10 := by decide
      obtain ⟨i, hleast, -, hmk⟩ :=
        Represents.mkDir (show Represents _ _ _ image2 rootFs from h2) hparent hroom hname RT_UID
          RT_GID hmode
      obtain rfl := hleast.eq_three
      rw [Run.bind_apply_ok hok]
      rcases hmk with ⟨exn, image', herr, hnot⟩ | ⟨image', hok', hnew⟩
      · refine Or.inl ⟨exn, image', Run.bind_apply_error herr, fun hall => hnot ⟨?_, ?_⟩⟩
        · have hfits := hall.2
          rw [initialFs_eq] at hfits
          exact hfits
        · show entrySize 1 + (entrySize 2 + (entrySize 10 + 0)) ≤ cBlockSize
          decide
      · refine Or.inr ⟨image', Run.bind_apply_ok hok', hnames, ?_⟩
        rw [initialFs_eq]
        exact hnew
  · rcases hrun : createSuperBlock c empty with ⟨exn | u, image1⟩
    · exact Or.inl ⟨exn, image1, Run.bind_apply_error hrun, fun hall => hnames hall.1⟩
    · exact absurd (namesFit_of_ok hrun) hnames

/-- **Any calls, from the empty file system.** -/
theorem calls_represents {c : FsParams} (h : c.Handled) {calls : List Call}
    (hallowed : AllAllowed (c.geometry h) initialFs calls) {image : DiskImage}
    (hrun : (do makeFs c; runCalls calls : Run MkfsExn DiskImage Unit) empty =
      (.ok (), image)) :
    Represents (c.geometry h) c.mDiskSizeInBlocks c.iNodeCnt image
      (calls.foldl Call.apply initialFs) := by
  obtain ⟨_, image1, hmake, hcalls⟩ := Run.bind_eq_ok hrun
  rcases makeFs_cases h with ⟨exn, image2, herr, -⟩ | ⟨image2, hok, -, himage⟩
  · rw [herr] at hmake
    cases hmake
  · rw [hok] at hmake
    cases hmake
    exact himage.calls hallowed hcalls

end Mkfs

end CraySim
