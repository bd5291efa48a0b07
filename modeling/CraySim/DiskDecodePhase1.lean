/-
  Subject:   The first phase of `disk_decode.cpp`: which of the scan files of a head are extracted.

  The files have an index each. The loop goes on behind a file it has extracted; behind an index
  with no file it does not, it looks for the same file again until it has missed it 101 times.

  * `ScanFiles` -- the files there are, and what `Extract` does with one,
  * `phase1Round` -- a round of the loop, `Phase1` what it works on,
  * `Wanted` -- the files that are to be extracted,
  * `ExtractsAt` -- the file is there and its extraction throws nothing,
  * `Covers` -- the loop ends, each file that is wanted extracted once,
  * `covers_iff` -- it does so exactly where no index in front of a wanted file is missing and the
    indices do not go round.
-/
import CraySim.Lib.DoWhile
import CraySim.Types
import Mathlib.Data.List.Nodup
import Mathlib.Data.Nat.Find

namespace CraySim

namespace DiskDecode

/-! ## 1. The loop -/

/-- The scan files, by their names: `exists`, and `Extract` with the image as it finds and leaves
    it, the track and the log; none where it throws. -/
structure ScanFiles (σ : Type) where
  fileExists : String → Bool
  extract : String → σ → σ × Option (BitVec 64 × String)

/-- `FileName`. -/
def scanFileName (Head FileIdx : BitVec 64) : String :=
  "h" ++ toString Head.toNat ++ "\\" ++ "s" ++ toString FileIdx.toNat ++ "_h" ++
    toString Head.toNat ++ ".txt"

/-- The line for a file in `InfoFile`. -/
def infoLine (Head FileIdx CurrentTrack : BitVec 64) (ExtractionLog : String) : String :=
  scanFileName Head FileIdx ++ "," ++ toString Head.toNat ++
    (if CurrentTrack = 0 then "" else "," ++ toString CurrentTrack.toNat ++ "," ++ ExtractionLog)

/-- What the loop for a head works on, with the indices of the files it has extracted. -/
structure Phase1 (σ : Type) where
  FileIdx : BitVec 64
  MissCnt : BitVec 64
  Image : σ
  CurrentTrack : BitVec 64
  InfoFile : List String
  extracted : List (BitVec 64)

/-- A file is extracted and has its line in `InfoFile`; `++FileIdx`. -/
def Phase1.fileDone {σ : Type} (s : Phase1 σ) (Head : BitVec 64) (image : σ)
    (CurrentTrack : BitVec 64) (ExtractionLog : String) : Phase1 σ where
  FileIdx := s.FileIdx + 1
  MissCnt := s.MissCnt
  Image := image
  CurrentTrack := CurrentTrack
  InfoFile := s.InfoFile ++ [infoLine Head s.FileIdx CurrentTrack ExtractionLog]
  extracted := s.extracted ++ [s.FileIdx]

section head
variable {σ : Type} (files : ScanFiles σ) (Head StartFileIdx EndFileIdx : BitVec 64) (image : σ)

/-- **A round of the loop**. What it ends with has a flag for an exception. -/
def phase1Round (s : Phase1 σ) : Phase1 σ ⊕ Phase1 σ × Bool :=
  let FileName := scanFileName Head s.FileIdx
  if files.fileExists FileName = false then
    -- `continue`: the index stays
    let s := { s with MissCnt := s.MissCnt + 1 }
    if 100 < s.MissCnt then .inr (s, false) else .inl s
  else
    let s := { s with MissCnt := 0 }
    match files.extract FileName s.Image with
    | (image, none) => .inr ({ s with Image := image }, true)
    | (image, some (CurrentTrack, ExtractionLog)) =>
      let s := s.fileDone Head image CurrentTrack ExtractionLog
      if EndFileIdx < s.FileIdx ∧ EndFileIdx ≠ 0 then .inr (s, false) else .inl s

/-- In front of the first round. -/
def phase1Start (CurrentTrack : BitVec 64) (InfoFile : List String) : Phase1 σ where
  FileIdx := StartFileIdx
  MissCnt := 0
  Image := image
  CurrentTrack := CurrentTrack
  InfoFile := InfoFile
  extracted := []

/-! ## 2. What it is for -/

/-- There is a file with the index. -/
def HasFile (i : BitVec 64) : Prop := files.fileExists (scanFileName Head i) = true

instance (i : BitVec 64) : Decidable (HasFile files Head i) :=
  inferInstanceAs (Decidable (files.fileExists (scanFileName Head i) = true))

/-- The file is there, its index is between the first and the last one asked for, and among any 101
    indices one behind the other on the way to it there is one with a file. -/
structure Wanted (i : BitVec 64) : Prop where
  found : HasFile files Head i
  start_le : StartFileIdx ≤ i
  le_end : EndFileIdx = 0 ∨ i ≤ EndFileIdx
  noGap : ∀ a, StartFileIdx.toNat ≤ a → a + 100 < i.toNat →
    ∃ j : BitVec 64, a ≤ j.toNat ∧ j.toNat ≤ a + 100 ∧ HasFile files Head j

/-- The loop ends, and every file that is wanted is extracted once. -/
def Covers (CurrentTrack : BitVec 64) (InfoFile : List String) : Prop :=
  ∃ s thrown, DoWhile.Ends (phase1Round files Head EndFileIdx)
      (phase1Start StartFileIdx image CurrentTrack InfoFile) (s, thrown) ∧
    ∀ i, Wanted files Head StartFileIdx EndFileIdx i → s.extracted.count i = 1

/-- The index the `k`-th file has that is extracted. -/
def fileIdxAt (k : Nat) : BitVec 64 := StartFileIdx + BitVec.ofNat 64 k

/-- The image the `k`-th file meets. -/
def imageAt : Nat → σ
  | 0 => image
  | k + 1 => (files.extract (scanFileName Head (fileIdxAt StartFileIdx k)) (imageAt k)).1

/-- The `k`-th index has a file, and its extraction throws nothing. -/
def ExtractsAt (k : Nat) : Prop :=
  HasFile files Head (fileIdxAt StartFileIdx k) ∧
    (files.extract (scanFileName Head (fileIdxAt StartFileIdx k))
      (imageAt files Head StartFileIdx image k)).2.isSome = true

/-- The `k`-th file is the last one asked for. -/
def LastAt (k : Nat) : Prop := EndFileIdx < fileIdxAt StartFileIdx k + 1 ∧ EndFileIdx ≠ 0

/-! ## 3. The rounds -/

variable {files Head StartFileIdx EndFileIdx image}

variable {s : Phase1 σ} {CurrentTrack : BitVec 64} {InfoFile : List String}

/-- A file that is missing is looked for until that is enough, and the head is left. -/
theorem ends_missing (hmissing : ¬ HasFile files Head s.FileIdx)
    (hcount : s.MissCnt = 0) : ∃ t, t.extracted = s.extracted ∧
      DoWhile.Ends (phase1Round files Head EndFileIdx) s (t, false) := by
  have hround : ∀ t : Phase1 σ, t.FileIdx = s.FileIdx → phase1Round files Head EndFileIdx t =
      if 100 < t.MissCnt + 1 then .inr ({ t with MissCnt := t.MissCnt + 1 }, false)
      else .inl { t with MissCnt := t.MissCnt + 1 } := by
    intro t ht
    rw [HasFile, Bool.not_eq_true] at hmissing
    rw [phase1Round, ht, if_pos hmissing]
  obtain ⟨t, r, ⟨htidx, htextracted, -⟩, hlast, hends⟩ := DoWhile.ends_of_variant
    (phase1Round files Head EndFileIdx) (fun t => t.FileIdx = s.FileIdx ∧ t.extracted = s.extracted ∧
      t.MissCnt ≤ 100)
    (fun t => 100 - t.MissCnt.toNat)
    (by
      intro t t' ⟨hidx, hextracted, hle⟩ hnext
      rw [hround t hidx] at hnext
      split at hnext
      · exact absurd hnext (by simp)
      · next hless =>
        obtain rfl := Sum.inl.inj hnext
        refine ⟨⟨hidx, hextracted, ?_⟩, ?_⟩ <;> simp only <;> bv_omega)
    ⟨rfl, rfl, by rw [hcount]; decide⟩
  rw [hround t htidx] at hlast
  split at hlast
  · obtain rfl := Sum.inr.inj hlast
    exact ⟨{ t with MissCnt := t.MissCnt + 1 }, htextracted, hends⟩
  · exact absurd hlast (by simp)

/-- What the loop works on when `k` files are extracted. -/
structure Behind (files : ScanFiles σ) (Head StartFileIdx : BitVec 64) (image : σ) (k : Nat)
    (s : Phase1 σ) : Prop where
  fileIdx : s.FileIdx = fileIdxAt StartFileIdx k
  missCnt : s.MissCnt = 0
  image : s.Image = imageAt files Head StartFileIdx image k
  extracted : s.extracted = (List.range k).map (fileIdxAt StartFileIdx)

theorem behind_start (files : ScanFiles σ) (Head StartFileIdx : BitVec 64) (image : σ)
    (CurrentTrack : BitVec 64) (InfoFile : List String) : Behind files Head StartFileIdx image 0
      (phase1Start StartFileIdx image CurrentTrack InfoFile) where
  fileIdx := (BitVec.add_zero StartFileIdx).symm
  missCnt := rfl
  image := rfl
  extracted := rfl

/-- The next file is extracted: the loop ends where it is the last one, and goes on where not. -/
theorem round_extracts (EndFileIdx : BitVec 64) {k : Nat}
    (h : Behind files Head StartFileIdx image k s)
    (hk : ExtractsAt files Head StartFileIdx image k) :
    ∃ s', Behind files Head StartFileIdx image (k + 1) s' ∧
      (LastAt StartFileIdx EndFileIdx k → phase1Round files Head EndFileIdx s = .inr (s', false)) ∧
      (¬ LastAt StartFileIdx EndFileIdx k → phase1Round files Head EndFileIdx s = .inl s') := by
  obtain ⟨hfile, hsome⟩ := hk
  obtain ⟨⟨CurrentTrack, ExtractionLog⟩, hresult⟩ := Option.isSome_iff_exists.mp hsome
  have hextract : files.extract (scanFileName Head s.FileIdx) s.Image =
      (imageAt files Head StartFileIdx image (k + 1), some (CurrentTrack, ExtractionLog)) := by
    rw [h.fileIdx, h.image, ← hresult]
    rfl
  have hthere : ¬ files.fileExists (scanFileName Head s.FileIdx) = false := by
    rw [h.fileIdx, Bool.not_eq_false]
    exact hfile
  have hnext : s.FileIdx + 1 = fileIdxAt StartFileIdx (k + 1) := by
    rw [h.fileIdx, fileIdxAt, fileIdxAt]
    bv_omega
  have hround : phase1Round files Head EndFileIdx s =
      let s' := { s with MissCnt := 0 }.fileDone Head
        (imageAt files Head StartFileIdx image (k + 1)) CurrentTrack ExtractionLog
      if EndFileIdx < s'.FileIdx ∧ EndFileIdx ≠ 0 then .inr (s', false) else .inl s' := by
    rw [phase1Round, if_neg hthere]
    simp only [hextract]
  refine ⟨{ s with MissCnt := 0 }.fileDone Head (imageAt files Head StartFileIdx image (k + 1))
    CurrentTrack ExtractionLog, ⟨hnext, rfl, rfl, ?_⟩, fun hlast => ?_, fun hmore => ?_⟩
  · rw [List.range_succ, List.map_append, ← h.extracted, List.map_singleton, ← h.fileIdx]
    rfl
  · rw [LastAt, ← h.fileIdx] at hlast
    exact hround.trans (if_pos hlast)
  · rw [LastAt, ← h.fileIdx] at hmore
    exact hround.trans (if_neg hmore)

/-- The next file is missing or cannot be extracted: the loop ends. -/
theorem ends_not_extracts (EndFileIdx : BitVec 64) {k : Nat}
    (h : Behind files Head StartFileIdx image k s)
    (hk : ¬ ExtractsAt files Head StartFileIdx image k) :
    ∃ t thrown, t.extracted = s.extracted ∧
      DoWhile.Ends (phase1Round files Head EndFileIdx) s (t, thrown) := by
  by_cases hfile : HasFile files Head s.FileIdx
  · have hnone : (files.extract (scanFileName Head s.FileIdx) s.Image).2 = none := by
      rw [ExtractsAt, ← h.fileIdx, ← h.image] at hk
      exact Option.not_isSome_iff_eq_none.mp fun hsome => hk ⟨hfile, hsome⟩
    refine ⟨{ s with MissCnt := 0, Image := (files.extract (scanFileName Head s.FileIdx) s.Image).1 },
      true, rfl, DoWhile.ends_last ?_⟩
    rw [HasFile, ← Bool.not_eq_false] at hfile
    rw [phase1Round, if_neg hfile]
    simp only
    split
    · next image' hextract => rw [hextract]
    · next hextract =>
      rw [hextract] at hnone
      exact absurd hnone (by simp)
  · obtain ⟨t, ht, hends⟩ := ends_missing hfile h.missCnt
    exact ⟨t, false, ht, hends⟩

/-! ## 4. The run -/

/-- The loop goes on behind the `k`-th file. -/
def GoesOn (files : ScanFiles σ) (Head StartFileIdx EndFileIdx : BitVec 64) (image : σ) (k : Nat) :
    Prop :=
  ExtractsAt files Head StartFileIdx image k ∧ ¬ LastAt StartFileIdx EndFileIdx k

/-- As long as it goes on, the loop does what it does behind the files it has extracted. -/
theorem ends_iff_behind (h : Behind files Head StartFileIdx image 0 s) (n : Nat)
    (hgo : ∀ k < n, GoesOn files Head StartFileIdx EndFileIdx image k) :
    ∃ s', Behind files Head StartFileIdx image n s' ∧
      ∀ r, DoWhile.Ends (phase1Round files Head EndFileIdx) s r ↔
        DoWhile.Ends (phase1Round files Head EndFileIdx) s' r := by
  induction n with
  | zero => exact ⟨s, h, fun _ => Iff.rfl⟩
  | succ n ih =>
    obtain ⟨s', hs', hiff⟩ := ih fun k hk => hgo k (by omega)
    obtain ⟨hext, hmore⟩ := hgo n (by omega)
    obtain ⟨s'', hs'', -, hround⟩ := round_extracts EndFileIdx hs' hext
    exact ⟨s'', hs'', fun r => (hiff r).trans (DoWhile.ends_iff_next (hround hmore))⟩

/-- The loop ends behind the first files, as many as there are in front of the first that does not
    let it go on, with that one where it is extracted as the last. -/
theorem ends_of_stop (h : Behind files Head StartFileIdx image 0 s) {n : Nat}
    (hgo : ∀ k < n, GoesOn files Head StartFileIdx EndFileIdx image k)
    (hstop : ¬ GoesOn files Head StartFileIdx EndFileIdx image n) :
    ∃ t thrown m, DoWhile.Ends (phase1Round files Head EndFileIdx) s (t, thrown) ∧
      t.extracted = (List.range m).map (fileIdxAt StartFileIdx) ∧ n ≤ m ∧ m ≤ n + 1 ∧
      (n < m ↔ ExtractsAt files Head StartFileIdx image n) := by
  obtain ⟨s', hs', hiff⟩ := ends_iff_behind h n hgo
  by_cases hext : ExtractsAt files Head StartFileIdx image n
  · have hlast : LastAt StartFileIdx EndFileIdx n := by
      by_contra hmore
      exact hstop ⟨hext, hmore⟩
    obtain ⟨t, ht, hround, -⟩ := round_extracts EndFileIdx hs' hext
    exact ⟨t, false, n + 1, (hiff _).mpr (DoWhile.ends_last (hround hlast)), ht.extracted,
      Nat.le_succ n, Nat.le_refl _, iff_of_true (Nat.lt_succ_self n) hext⟩
  · obtain ⟨t, thrown, ht, hends⟩ := ends_not_extracts EndFileIdx hs' hext
    exact ⟨t, thrown, n, (hiff _).mpr hends, ht.trans hs'.extracted, Nat.le_refl n, Nat.le_succ n,
      iff_of_false (Nat.lt_irrefl n) hext⟩

/-- A loop that goes on behind every file does not end. -/
theorem not_ends_of_goesOn (h : Behind files Head StartFileIdx image 0 s)
    (hgo : ∀ k, GoesOn files Head StartFileIdx EndFileIdx image k) (r : Phase1 σ × Bool) :
    ¬ DoWhile.Ends (phase1Round files Head EndFileIdx) s r := by
  refine DoWhile.not_ends (fun t => ∃ k, Behind files Head StartFileIdx image k t) ?_ ⟨0, h⟩
  intro t ⟨k, ht⟩
  obtain ⟨hext, hmore⟩ := hgo k
  obtain ⟨t', ht', -, hround⟩ := round_extracts EndFileIdx ht hext
  exact ⟨t', hround hmore, k + 1, ht'⟩

/-- Where the loop ends, some file does not let it go on; the first of them is where it ends. -/
theorem exists_stop (h : ∃ k, ¬ GoesOn files Head StartFileIdx EndFileIdx image k) :
    ∃ n, (∀ k < n, GoesOn files Head StartFileIdx EndFileIdx image k) ∧
      ¬ GoesOn files Head StartFileIdx EndFileIdx image n ∧
      ∀ k, ¬ GoesOn files Head StartFileIdx EndFileIdx image k → n ≤ k := by
  classical
  refine ⟨Nat.find h, fun k hk => ?_, Nat.find_spec h, fun k hk => Nat.find_min' h hk⟩
  exact Classical.not_not.mp (Nat.find_min h hk)

/-! ## 5. The indices -/

/-- How far behind the first index an index is. -/
def rounds (StartFileIdx i : BitVec 64) : Nat := i.toNat - StartFileIdx.toNat

theorem fileIdxAt_rounds {i : BitVec 64} (h : StartFileIdx ≤ i) :
    fileIdxAt StartFileIdx (rounds StartFileIdx i) = i := by
  have hlt := i.isLt
  have hle : StartFileIdx.toNat ≤ i.toNat := h
  apply BitVec.eq_of_toNat_eq
  rw [fileIdxAt, rounds, BitVec.toNat_add, BitVec.toNat_ofNat]
  omega

theorem toNat_fileIdxAt {i : BitVec 64} {k : Nat} (h : StartFileIdx ≤ i)
    (hk : k ≤ rounds StartFileIdx i) :
    (fileIdxAt StartFileIdx k).toNat = StartFileIdx.toNat + k := by
  have hlt := i.isLt
  have hle : StartFileIdx.toNat ≤ i.toNat := h
  rw [rounds] at hk
  rw [fileIdxAt, BitVec.toNat_add, BitVec.toNat_ofNat]
  omega

/-- An index is met at the round it is away from the first, and not before. -/
theorem rounds_le_of_fileIdxAt {i : BitVec 64} {k : Nat} (h : StartFileIdx ≤ i)
    (hk : fileIdxAt StartFileIdx k = i) : rounds StartFileIdx i ≤ k := by
  have hlt := i.isLt
  have hle : StartFileIdx.toNat ≤ i.toNat := h
  have heq := congrArg BitVec.toNat hk
  rw [fileIdxAt, BitVec.toNat_add, BitVec.toNat_ofNat] at heq
  rw [rounds]
  omega

/-- As long as the indices do not go round, none is met twice. -/
theorem nodup_fileIdxAt {m : Nat} (hm : m ≤ 2 ^ 64) :
    ((List.range m).map (fileIdxAt StartFileIdx)).Nodup := by
  refine List.Nodup.map_on (fun k hk l hl heq => ?_) List.nodup_range
  rw [List.mem_range] at hk hl
  have hcancel := congrArg BitVec.toNat heq
  have hlt := StartFileIdx.isLt
  rw [fileIdxAt, fileIdxAt, BitVec.toNat_add, BitVec.toNat_ofNat, BitVec.toNat_add,
    BitVec.toNat_ofNat] at hcancel
  omega

/-- When they have gone round, the first one is met twice. -/
theorem one_lt_count_start (StartFileIdx : BitVec 64) {m : Nat} (hm : 2 ^ 64 < m) :
    1 < ((List.range m).map (fileIdxAt StartFileIdx)).count StartFileIdx := by
  obtain ⟨d, rfl⟩ := Nat.exists_eq_add_of_lt hm
  rw [Nat.add_assoc, List.range_add, List.map_append, List.count_append]
  have hfirst : 0 < ((List.range (2 ^ 64)).map (fileIdxAt StartFileIdx)).count StartFileIdx := by
    rw [List.count_pos_iff, List.mem_map]
    exact ⟨0, List.mem_range.mpr (Nat.two_pow_pos 64), BitVec.add_zero StartFileIdx⟩
  have hsecond : 0 < (((List.range (d + 1)).map (2 ^ 64 + ·)).map
      (fileIdxAt StartFileIdx)).count StartFileIdx := by
    rw [List.count_pos_iff, List.mem_map]
    refine ⟨2 ^ 64, List.mem_map.mpr ⟨0, List.mem_range.mpr (Nat.succ_pos d), rfl⟩, ?_⟩
    exact BitVec.add_zero StartFileIdx
  omega

/-- A file between the first and the one before `i` is not the last where `i` is asked for. -/
theorem not_lastAt {i : BitVec 64} (hstart : StartFileIdx ≤ i)
    (hend : EndFileIdx = 0 ∨ i ≤ EndFileIdx) {k : Nat} (hk : k < rounds StartFileIdx i) :
    ¬ LastAt StartFileIdx EndFileIdx k := by
  intro ⟨hpast, hne⟩
  have hat := toNat_fileIdxAt hstart (Nat.le_of_lt hk)
  have hle : i.toNat ≤ EndFileIdx.toNat := hend.resolve_left hne
  have hpast' : EndFileIdx.toNat < (fileIdxAt StartFileIdx k + 1).toNat := hpast
  have hlt := i.isLt
  rw [rounds] at hk
  rw [BitVec.toNat_add, hat] at hpast'
  have hone : (1 : BitVec 64).toNat = 1 := rfl
  rw [hone] at hpast'
  omega

/-- With a last index that is neither 0 nor the greatest there is, a last file is met before the
    indices go round. -/
theorem exists_lastAt (StartFileIdx : BitVec 64) (hzero : EndFileIdx ≠ 0) (hmax : EndFileIdx ≠ BitVec.allOnes 64) :
    ∃ k < 2 ^ 64, LastAt StartFileIdx EndFileIdx k := by
  have hend : EndFileIdx.toNat < 2 ^ 64 - 1 := by
    have hlt := EndFileIdx.isLt
    have hne : EndFileIdx.toNat ≠ 2 ^ 64 - 1 := by
      intro heq
      exact hmax (BitVec.eq_of_toNat_eq (heq.trans BitVec.toNat_allOnes.symm))
    omega
  have hstart := StartFileIdx.isLt
  have hlast : ∀ k < 2 ^ 64, (fileIdxAt StartFileIdx k + 1).toNat = 2 ^ 64 - 1 →
      LastAt StartFileIdx EndFileIdx k := by
    intro k _ hk
    refine ⟨?_, hzero⟩
    show EndFileIdx.toNat < _
    omega
  have hone : (1 : BitVec 64).toNat = 1 := rfl
  refine ⟨(2 ^ 65 - 2 - StartFileIdx.toNat) % 2 ^ 64, Nat.mod_lt _ (Nat.two_pow_pos 64),
    hlast _ (Nat.mod_lt _ (Nat.two_pow_pos 64)) ?_⟩
  rw [fileIdxAt, BitVec.toNat_add, BitVec.toNat_add, BitVec.toNat_ofNat, hone]
  omega

/-! ## 6. When every wanted file is extracted -/

/-- The files in front of a wanted one, and the wanted one, are there and can be extracted. -/
def ReachesWanted (files : ScanFiles σ) (Head StartFileIdx EndFileIdx : BitVec 64) (image : σ) :
    Prop :=
  ∀ i, Wanted files Head StartFileIdx EndFileIdx i →
    ∀ k ≤ rounds StartFileIdx i, ExtractsAt files Head StartFileIdx image k

/-- No last file stops the loop before the indices have gone round, and no other does. -/
def GoesRound (files : ScanFiles σ) (Head StartFileIdx EndFileIdx : BitVec 64) (image : σ) : Prop :=
  (EndFileIdx = 0 ∨ EndFileIdx = BitVec.allOnes 64) ∧
    ∀ k ≤ 2 ^ 64, ExtractsAt files Head StartFileIdx image k

/-- With every wanted file in reach, the loop ends behind all of them. -/
theorem covers_of_reaches (hreach : ReachesWanted files Head StartFileIdx EndFileIdx image)
    (hround : ¬ GoesRound files Head StartFileIdx EndFileIdx image) :
    Covers files Head StartFileIdx EndFileIdx image CurrentTrack InfoFile := by
  -- the loop stops before the indices have gone round
  obtain ⟨l, hl, hstopl⟩ : ∃ l ≤ 2 ^ 64, ¬ GoesOn files Head StartFileIdx EndFileIdx image l ∧
      (l < 2 ^ 64 ∨ ¬ ExtractsAt files Head StartFileIdx image l) := by
    by_cases hend : EndFileIdx = 0 ∨ EndFileIdx = BitVec.allOnes 64
    · obtain ⟨l, hl, hnot⟩ : ∃ l ≤ 2 ^ 64, ¬ ExtractsAt files Head StartFileIdx image l := by
        by_contra hnone
        refine hround ⟨hend, fun k hk => ?_⟩
        by_contra hnot
        exact hnone ⟨k, hk, hnot⟩
      exact ⟨l, hl, fun hgo => hnot hgo.1, Or.inr hnot⟩
    · obtain ⟨hzero, hmax⟩ := not_or.mp hend
      obtain ⟨l, hl, hlast⟩ := exists_lastAt StartFileIdx hzero hmax
      exact ⟨l, Nat.le_of_lt hl, fun hgo => hgo.2 hlast, Or.inl hl⟩
  obtain ⟨n, hgo, hstop, hleast⟩ := exists_stop ⟨l, hstopl.1⟩
  obtain ⟨t, thrown, m, hends, hextracted, hnm, hmn, hext⟩ :=
    ends_of_stop (behind_start files Head StartFileIdx image CurrentTrack InfoFile) hgo hstop
  have hm : m ≤ 2 ^ 64 := by
    have hnl := hleast l hstopl.1
    rcases Nat.lt_or_ge n l with hlt | hge
    · omega
    · obtain rfl : n = l := by omega
      rcases hstopl.2 with hlt | hnot
      · omega
      · have hnotlt : ¬ n < m := fun hlt => hnot (hext.mp hlt)
        omega
  refine ⟨t, thrown, hends, fun i hi => ?_⟩
  have hpresent : rounds StartFileIdx i < m := by
    have hn : rounds StartFileIdx i ≤ n := by
      by_contra hless
      refine hstop ⟨hreach i hi n (by omega), not_lastAt hi.start_le hi.le_end (by omega)⟩
    rcases Nat.lt_or_ge (rounds StartFileIdx i) n with hlt | hge
    · omega
    · have heq : n = rounds StartFileIdx i := by omega
      have hlt : n < m := hext.mpr (hreach i hi n (Nat.le_of_eq heq))
      omega
  rw [hextracted]
  refine List.count_eq_one_of_mem (nodup_fileIdxAt hm) (List.mem_map.mpr
    ⟨rounds StartFileIdx i, List.mem_range.mpr hpresent, fileIdxAt_rounds hi.start_le⟩)

/-- What a loop has extracted that ends is the files in front of its first stop. -/
theorem extracted_of_ends {thrown : Bool} (hends : DoWhile.Ends (phase1Round files Head EndFileIdx)
      (phase1Start StartFileIdx image CurrentTrack InfoFile) (s, thrown)) :
    ∃ n m, s.extracted = (List.range m).map (fileIdxAt StartFileIdx) ∧ n ≤ m ∧
      (∀ k < m, ExtractsAt files Head StartFileIdx image k) ∧
      ¬ GoesOn files Head StartFileIdx EndFileIdx image n := by
  have hstart := behind_start files Head StartFileIdx image CurrentTrack InfoFile
  have hsome : ∃ k, ¬ GoesOn files Head StartFileIdx EndFileIdx image k := by
    by_contra hnone
    exact not_ends_of_goesOn hstart (fun k => Classical.not_not.mp (not_exists.mp hnone k)) _ hends
  obtain ⟨n, hgo, hstop, -⟩ := exists_stop hsome
  obtain ⟨t, thrown', m, hends', hextracted, hnm, hmn, hext⟩ := ends_of_stop hstart hgo hstop
  obtain ⟨rfl, -⟩ := Prod.mk.inj (hends.unique hends')
  refine ⟨n, m, hextracted, hnm, fun k hk => ?_, hstop⟩
  rcases Nat.lt_or_ge k n with hlt | hge
  · exact (hgo k hlt).1
  · obtain rfl : k = n := by omega
    exact hext.mp hk

theorem reachesWanted_of_covers
    (h : Covers files Head StartFileIdx EndFileIdx image CurrentTrack InfoFile) :
    ReachesWanted files Head StartFileIdx EndFileIdx image := by
  obtain ⟨s, thrown, hends, hcount⟩ := h
  obtain ⟨n, m, hextracted, -, hext, -⟩ := extracted_of_ends hends
  intro i hi k hk
  have hmem : i ∈ s.extracted := List.count_pos_iff.mp (by rw [hcount i hi]; exact Nat.one_pos)
  rw [hextracted] at hmem
  obtain ⟨l, hl, hli⟩ := List.mem_map.mp hmem
  have hle := rounds_le_of_fileIdxAt hi.start_le hli
  exact hext k (Nat.lt_of_le_of_lt (Nat.le_trans hk hle) (List.mem_range.mp hl))

/-- All the way round, the first file is extracted a second time or the loop does not end. -/
theorem not_goesRound_of_covers
    (h : Covers files Head StartFileIdx EndFileIdx image CurrentTrack InfoFile) :
    ¬ GoesRound files Head StartFileIdx EndFileIdx image := by
  obtain ⟨s, thrown, hends, hcount⟩ := h
  obtain ⟨n, m, hextracted, hnm, -, hstop⟩ := extracted_of_ends hends
  intro ⟨hend, hall⟩
  have hn : 2 ^ 64 < n := by
    by_contra hle
    refine hstop ⟨hall n (by omega), fun ⟨hpast, hne⟩ => ?_⟩
    rw [hend.resolve_left hne] at hpast
    exact absurd hpast (BitVec.not_allOnes_lt)
  have hwanted : Wanted files Head StartFileIdx EndFileIdx StartFileIdx := by
    have hfound := (hall 0 (Nat.zero_le _)).1
    rw [fileIdxAt, BitVec.add_zero] at hfound
    refine ⟨hfound, BitVec.le_refl _, hend.imp_right fun hmax => ?_, fun a ha hless => ?_⟩
    · rw [hmax, BitVec.le_def, BitVec.toNat_allOnes]
      exact Nat.le_pred_of_lt StartFileIdx.isLt
    · omega
  have htwice := one_lt_count_start StartFileIdx (Nat.lt_of_lt_of_le hn hnm)
  rw [← hextracted, hcount _ hwanted] at htwice
  exact Nat.lt_irrefl 1 htwice

/-- **The loop ends and extracts every wanted file once exactly where** the files in front of a
    wanted one are all there and can be extracted, and the indices do not go round. -/
theorem covers_iff (files : ScanFiles σ) (Head StartFileIdx EndFileIdx : BitVec 64) (image : σ)
    (CurrentTrack : BitVec 64) (InfoFile : List String) :
    Covers files Head StartFileIdx EndFileIdx image CurrentTrack InfoFile ↔
      ReachesWanted files Head StartFileIdx EndFileIdx image ∧
        ¬ GoesRound files Head StartFileIdx EndFileIdx image :=
  ⟨fun h => ⟨reachesWanted_of_covers h, not_goesRound_of_covers h⟩,
    fun ⟨hreach, hround⟩ => covers_of_reaches hreach hround⟩

end head

/-- The first and the third scan of a head, the second missing. -/
def oneMissing : ScanFiles Unit where
  fileExists name := name = scanFileName 0 0 || name = scanFileName 0 2
  extract _ image := (image, some (1, ""))

/-- The third scan is asked for and not extracted. -/
theorem not_covers : ¬ Covers oneMissing 0 0 2 () 0 [] := by
  intro h
  have hwanted : Wanted oneMissing 0 0 2 2 := by
    refine ⟨by decide, by decide, Or.inr (by decide), fun a _ hless => ?_⟩
    exact absurd hless (by simp)
  have hsecond : HasFile oneMissing 0 (fileIdxAt 0 1) :=
    (reachesWanted_of_covers h 2 hwanted 1 (by decide)).1
  exact absurd hsecond (by decide)

end DiskDecode

end CraySim
