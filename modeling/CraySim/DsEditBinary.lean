/-
  Subject:   A binary file cut into the records of a dataset.

  `ds_edit.cpp`, the branch of `Create` for `-a`. The loop reads a record at a time and stops at the
  end of the file. What the last read got of a record is left out, although the source means to be
  careful about it; and reads of nothing never meet the end.

  * `binaryLoop`, `createBinary` -- the loop, and the end of file behind it,
  * `binaryLoop_eq` -- the whole records are written, one a round,
  * `binaryLoop_zero` -- records of no size: the loop does not end,
  * `createBinary_iff` -- the records are the file iff it ends with a whole one.
-/
import CraySim.DataSetRun
import CraySim.Lib.FileStream

namespace CraySim

open ByteFile

namespace DataSet

/-! ## 1. The loop -/

/-- `while (!InFile.eof())`, for a number of rounds: the records it writes, and the dataset. The
    source has no such list of records. -/
def binaryLoop (aFileName : String) (aRecordSize : Nat) :
    Nat → FileStream → DataSet → Except DsExn (List (List (BitVec 8)) × DataSet)
  | 0, _, _ => .error .diverges
  | rounds + 1, inFile, outFile =>
    if inFile.eofbit then .ok ([], outFile)
    else
      let (record, inFile) := inFile.read aRecordSize
      if record.length ≠ aRecordSize ∧ !inFile.eofbit then
        .error (.generic ("Can't read from input file " ++ aFileName))
      else if inFile.eofbit then .ok ([], outFile)
      else do
        let outFile ← writeRecord record outFile
        let (records, outFile) ← binaryLoop aFileName aRecordSize rounds inFile outFile
        return (record :: records, outFile)

/-- `std::ifstream InFile(File.FileName)`, of a file that is there. -/
def inputFile (aFile : List (BitVec 8)) : FileStream :=
  FileStream.openFile
    { disk := some aFile, isOpen := false, pos := 0, eofbit := false, failbit := false }

theorem inputFile_eq (aFile : List (BitVec 8)) : inputFile aFile = .ready aFile 0 := rfl

/-- A binary input file with the contents `aFile`. -/
def createBinary (rounds : Nat) (aFileName : String) (aFile : List (BitVec 8)) (aRecordSize : Nat)
    (outFile : DataSet) : Except DsExn (List (List (BitVec 8)) × DataSet) := do
  let recordSize := min aRecordSize aFile.length
  let (records, outFile) ← binaryLoop aFileName recordSize rounds (inputFile aFile) outFile
  let outFile ← writeEof outFile
  return (records, outFile)

section loop
variable {file : List (BitVec 8)} {pos m : Nat} {s : DataSet} {gs : List Segment}

theorem binaryLoop_record (aFileName : String) (rounds : Nat) (h : pos + m ≤ file.length)
    {s' : DataSet} (hwrite : writeRecord (window file pos m) s = .ok s') :
    binaryLoop aFileName m (rounds + 1) (.ready file pos) s = do
      let (records, outFile) ← binaryLoop aFileName m rounds (.ready file (pos + m)) s'
      return (window file pos m :: records, outFile) := by
  have hlen : (window file pos m).length = m := by
    rw [length_window]
    omega
  simp [binaryLoop, FileStream.read_ready h, hlen, hwrite, bind_ok]

/-- Less than a record: it is read, and not written. -/
theorem binaryLoop_end (aFileName : String) (rounds : Nat) (hpos : pos ≤ file.length)
    (h : file.length < pos + m) :
    binaryLoop aFileName m (rounds + 1) (.ready file pos) s = .ok ([], s) := by
  simp [binaryLoop, FileStream.read_rest hpos h]

/-- **The loop**, by induction on the whole records in front of the position: it needs a round for
    every one of them and one to find the end, and they are what it writes. -/
theorem binaryLoop_eq (aFileName : String) (hm : 0 < m) (n : Nat) (hpos : pos ≤ file.length)
    (hn : (file.length - pos) / m = n) (h : Layout s gs) (hr : Ready s) :
    ∃ records s' gs', Layout s' gs' ∧ Ready s' ∧
      records.flatten = (file.drop pos).take (n * m) ∧
      (records.map Op.record).foldlM apply s = .ok s' ∧
      ∀ rounds, binaryLoop aFileName m rounds (.ready file pos) s =
        if n < rounds then .ok (records, s') else .error .diverges := by
  induction n generalizing pos s gs with
  | zero =>
    have hshort : file.length < pos + m := by
      rcases (Nat.div_eq_zero_iff).1 hn with hz | hlt
      · omega
      · omega
    refine ⟨[], s, gs, h, hr, by rw [Nat.zero_mul, List.take_zero]; rfl, rfl, fun rounds => ?_⟩
    cases rounds with
    | zero => rfl
    | succ rounds => rw [binaryLoop_end aFileName rounds hpos hshort, if_pos (Nat.succ_pos _)]
  | succ n ih =>
    have hfull : pos + m ≤ file.length := by
      have hle := Nat.div_mul_le_self (file.length - pos) m
      rw [hn, Nat.succ_mul] at hle
      omega
    have hrest : (file.length - (pos + m)) / m = n := by
      rw [Nat.div_eq_sub_div hm (by omega), Nat.sub_sub] at hn
      exact Nat.succ.inj hn
    obtain ⟨s1, g, tail, hwrite, hlayout, hafter, -⟩ := writeRecord_spec (window file pos m) h hr
    obtain ⟨records, s', gs', hlayout', hready', hrecords, hops, hloop⟩ :=
      ih hfull hrest hlayout hafter.ready
    refine ⟨window file pos m :: records, s', gs', hlayout', hready', ?_, ?_, fun rounds => ?_⟩
    · rw [List.flatten_cons, hrecords, ← List.drop_drop, Nat.succ_mul, Nat.add_comm (n * m),
        List.take_add, window]
    · rw [List.map_cons, List.foldlM_cons]
      exact (bind_ok hwrite).trans hops
    · cases rounds with
      | zero => rfl
      | succ rounds =>
        rw [binaryLoop_record aFileName rounds hfull hwrite, hloop rounds]
        by_cases hlt : n < rounds
        · rw [if_pos hlt, if_pos (Nat.succ_lt_succ hlt)]
          rfl
        · rw [if_neg hlt, if_neg (by omega)]
          rfl

/-- **Records of no size**: every round writes an empty record, and none meets the end. -/
theorem binaryLoop_zero (aFileName : String) (rounds : Nat) (hpos : pos ≤ file.length)
    (h : Layout s gs) (hr : Ready s) :
    binaryLoop aFileName 0 rounds (.ready file pos) s = .error .diverges := by
  induction rounds generalizing s gs with
  | zero => rfl
  | succ rounds ih =>
    obtain ⟨s', g, tail, hwrite, hlayout, hafter, -⟩ := writeRecord_spec (window file pos 0) h hr
    rw [binaryLoop_record aFileName rounds hpos hwrite, Nat.add_zero, ih hlayout hafter.ready]
    rfl

end loop

/-! ## 2. The file -/

section create
variable {ops : List Op} {outFile : DataSet}

/-- A dataset that has been written to, whatever was. -/
theorem layout_of_run (hout : run ops = .ok outFile) : ∃ gs, Layout outFile gs ∧ Ready outFile := by
  obtain ⟨t, gs, hrun, hlayout, hready⟩ := run_spec ops layout_init ready_init
  obtain rfl : outFile = t := Except.ok.inj (hout.symm.trans hrun)
  exact ⟨gs, hlayout, hready⟩

/-- **The whole records** of a file are written, and an end of file behind them. -/
theorem createBinary_eq (hout : run ops = .ok outFile) (aFileName : String)
    (aFile : List (BitVec 8)) {aRecordSize : Nat} (hsize : 0 < min aRecordSize aFile.length) :
    ∃ records outFile',
      records.flatten = aFile.take
        (aFile.length / min aRecordSize aFile.length * min aRecordSize aFile.length) ∧
      (opsOfFile records).foldlM apply outFile = .ok outFile' ∧
      ∀ rounds, createBinary rounds aFileName aFile aRecordSize outFile =
        if aFile.length / min aRecordSize aFile.length < rounds then .ok (records, outFile')
        else .error .diverges := by
  obtain ⟨gs, hlayout, hready⟩ := layout_of_run hout
  obtain ⟨records, s, gs', hlayout', hready', hrecords, hops, hloop⟩ :=
    binaryLoop_eq aFileName hsize _ (Nat.zero_le aFile.length) rfl hlayout hready
  obtain ⟨outFile', g, tail, heof, -⟩ := writeEof_spec hlayout' hready'
  rw [Nat.sub_zero] at hrecords hloop
  refine ⟨records, outFile', hrecords, ?_, fun rounds => ?_⟩
  · rw [opsOfFile, List.foldlM_append]
    refine (bind_ok hops).trans ?_
    rw [List.foldlM_cons]
    exact bind_ok heof
  · rw [createBinary, inputFile_eq, hloop rounds]
    by_cases hlt : aFile.length / min aRecordSize aFile.length < rounds
    · rw [if_pos hlt, if_pos hlt]
      exact bind_ok heof
    · rw [if_neg hlt, if_neg hlt]
      rfl

/-- An empty file, and a record size of zero: it does not end. -/
theorem createBinary_diverges (hout : run ops = .ok outFile) (aFileName : String)
    {aFile : List (BitVec 8)} {aRecordSize : Nat} (hsize : min aRecordSize aFile.length = 0)
    (rounds : Nat) :
    createBinary rounds aFileName aFile aRecordSize outFile = .error .diverges := by
  obtain ⟨gs, hlayout, hready⟩ := layout_of_run hout
  have hloop := binaryLoop_zero aFileName rounds (Nat.zero_le aFile.length) hlayout hready
  rw [createBinary, inputFile_eq, hsize, hloop]
  rfl

theorem dvd_length_iff {aFile : List (BitVec 8)} {aRecordSize : Nat} :
    min aRecordSize aFile.length ∣ aFile.length ↔
      aFile.length ≤ aRecordSize ∨ aRecordSize ∣ aFile.length := by
  by_cases hle : aFile.length ≤ aRecordSize
  · rw [Nat.min_eq_right hle]
    exact ⟨fun _ => .inl hle, fun _ => Nat.dvd_refl _⟩
  · rw [Nat.min_eq_left (by omega)]
    exact ⟨.inr, fun h => h.resolve_left hle⟩

/-- **A binary file**: the loop ends and what it has written is the file, exactly when the file is
    not empty and its last record is a whole one. -/
theorem createBinary_iff (hout : run ops = .ok outFile) (aFileName : String)
    (aFile : List (BitVec 8)) (aRecordSize : Nat) :
    (∃ rounds records outFile',
      createBinary rounds aFileName aFile aRecordSize outFile = .ok (records, outFile') ∧
      (opsOfFile records).foldlM apply outFile = .ok outFile' ∧ records.flatten = aFile) ↔
        aFile ≠ [] ∧ (aFile.length ≤ aRecordSize ∨ aRecordSize ∣ aFile.length) := by
  rcases Nat.eq_zero_or_pos (min aRecordSize aFile.length) with hzero | hsize
  · constructor
    · rintro ⟨rounds, records, outFile', hcreate, -⟩
      rw [createBinary_diverges hout aFileName hzero rounds] at hcreate
      exact nomatch hcreate
    · rintro ⟨hne, hrecord⟩
      have hlen : 0 < aFile.length := List.length_pos_iff.2 hne
      have hsize : aRecordSize = 0 := by omega
      rw [hsize, Nat.zero_dvd] at hrecord
      omega
  · have hne : aFile ≠ [] := List.ne_nil_of_length_pos (by omega)
    obtain ⟨records, outFile', hrecords, hops, hall⟩ := createBinary_eq hout aFileName aFile hsize
    rw [← dvd_length_iff]
    constructor
    · rintro ⟨rounds, records', outFile'', hcreate, -, hflat⟩
      rw [hall rounds] at hcreate
      split at hcreate
      · obtain ⟨rfl, rfl⟩ := Prod.mk.inj (Except.ok.inj hcreate)
        have hlen := congrArg List.length (hrecords.symm.trans hflat)
        rw [List.length_take, Nat.min_eq_left (Nat.div_mul_le_self _ _)] at hlen
        exact ⟨hne, Dvd.intro_left _ hlen⟩
      · exact nomatch hcreate
    · rintro ⟨-, hdvd⟩
      refine ⟨_, records, outFile', (hall _).trans (if_pos (Nat.lt_succ_self _)), hops, ?_⟩
      rw [hrecords, Nat.div_mul_cancel hdvd, List.take_length]

/-- Four bytes, two a record. -/
theorem createBinary_iff_even :
    ∃ rounds records outFile',
      createBinary rounds "in.bin" [1, 2, 3, 4] 2 init = .ok (records, outFile') ∧
      (opsOfFile records).foldlM apply init = .ok outFile' ∧ records.flatten = [1, 2, 3, 4] :=
  (@createBinary_iff [] init rfl "in.bin" [1, 2, 3, 4] 2).2 (by decide)

/-- Of three bytes the last one is lost. -/
theorem not_createBinary_odd :
    ¬ ∃ rounds records outFile',
      createBinary rounds "in.bin" [1, 2, 3] 2 init = .ok (records, outFile') ∧
      records.flatten = [1, 2, 3] := by
  rintro ⟨rounds, records', outFile'', hcreate, hflat⟩
  obtain ⟨records, outFile', hrecords, -, hall⟩ :=
    @createBinary_eq [] init rfl "in.bin" [1, 2, 3] 2 (by decide)
  rw [hall rounds] at hcreate
  split at hcreate
  · obtain ⟨rfl, rfl⟩ := Prod.mk.inj (Except.ok.inj hcreate)
    exact absurd (hrecords.symm.trans hflat) (by decide)
  · exact nomatch hcreate

end create

end DataSet

end CraySim
