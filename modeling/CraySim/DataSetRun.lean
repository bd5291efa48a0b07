/-
  Subject:   Datasets are well formed, whatever is written to them.

  * `Spells` -- the segments that a sequence of operations and `Flush` write,
  * `run_flush` -- every sequence of operations succeeds and writes such segments,
  * `walk` -- following the forward indices from word 0,
  * `dataset_wellFormed` -- the walk visits the control words written and nothing else.
-/
import CraySim.DataSetLayout

namespace CraySim

open ByteFile Framed

namespace DataSet

/-! ## 1. Operations -/

/-- The data of an operation. -/
def Op.bytes : Op → List (BitVec 8)
  | .record aRecord => aRecord
  | .eof => []

/-- The type of the control word that ends it. -/
def Op.ctrlType : Op → CtrlWordType
  | .record _ => .EOR
  | .eof => .EOF

/-- And how many bits of the last word it declares unused. -/
def Op.unusedBitCnt : Op → Nat
  | .record aRecord => 8 * (8 * wordCnt aRecord - aRecord.length)
  | .eof => 0

/-- The offset in its block of the control word before which `n` words stand, block control
    words not counted, itself counted unless it is the first of all. -/
def ofsAt (n : Nat) : Nat := if n = 0 then 0 else 8 * ((n - 1) % 511 + 1)

/-- The segments that operations and `Flush` write, with a control word of a type and an unused
    bit count waiting in front of them. -/
inductive Spells : CtrlWordType → Nat → Nat → List Op → List Segment → Prop
  | flush {t u n g tail last} (hgroup : Group t u (ofsAt n) [] g tail) (hone : tail.length ≤ 1)
      (htype : last.ctrlWord.getType = .EOD) (hdata : last.data = []) :
      Spells t u n [] (g :: tail ++ [last])
  | step {t u n op ops g tail gs} (hgroup : Group t u (ofsAt n) op.bytes g tail)
      (hrest : Spells op.ctrlType op.unusedBitCnt (n + wordCnt op.bytes + 1) ops gs) :
      Spells t u n (op :: ops) (g :: tail ++ gs)

section runs
variable {s : DataSet} {gs : List Segment}

/-- **An operation**: what it writes, and that the next one can follow. -/
theorem apply_spec (op : Op) (h : Layout s gs) (hr : Ready s) :
    ∃ s' g tail, apply s op = .ok s' ∧ Layout s' (gs ++ g :: tail) ∧
      After s s' (wordCnt op.bytes) ∧ s'.mLastCtrlWord.getType = op.ctrlType ∧
      s'.mLastCtrlWord.getUnusedBitCnt.toNat = op.unusedBitCnt ∧
      Group s.mLastCtrlWord.getType s.mLastCtrlWord.getUnusedBitCnt.toNat s.mBlockOfs op.bytes
        g tail := by
  cases op with
  | record r => exact writeRecord_spec r h hr
  | eof => exact writeEof_spec h hr

theorem After.ofs_eq {s' : DataSet} {n : Nat} (h : After s s' n) (hlayout : Layout s' gs) :
    s'.mBlockOfs = ofsAt (wordIdx s') := by
  have hpos := h.ofs_pos
  have hroom := h.ready.room
  have haligned := hlayout.aligned
  rw [ofsAt, wordIdx, if_neg (by omega)]
  omega

/-- **All operations and `Flush`**, by induction on the operations. -/
theorem run_flush (ops : List Op) (h : Layout s gs) (hr : Ready s)
    (hofs : s.mBlockOfs = ofsAt (wordIdx s)) :
    ∃ t new, (ops.foldlM apply s >>= flush) = .ok t ∧
      t.file = image Segment.bytes (gs ++ new) ∧
      (∀ m ∈ marks Segment.bytes 0 (gs ++ new), m.2.Fits m.1) ∧
      t.written = (marks Segment.bytes 0 (gs ++ new)).map (fun m => (m.1, m.2.ctrlWord)) ∧
      Spells s.mLastCtrlWord.getType s.mLastCtrlWord.getUnusedBitCnt.toNat (wordIdx s) ops new := by
  induction ops generalizing s gs with
  | nil =>
    obtain ⟨t, g, tail, last, hflush, hfile, hfits, hlog, htype, hdata, hone, hgroup⟩ :=
      flush_spec h hr
    rw [hofs] at hgroup
    rw [List.append_assoc] at hfile hfits hlog
    exact ⟨t, g :: tail ++ [last], hflush, hfile, hfits, hlog, .flush hgroup hone htype hdata⟩
  | cons op ops ih =>
    obtain ⟨s', g, tail, happly, hlayout, hafter, htype, hunused, hgroup⟩ := apply_spec op h hr
    obtain ⟨t, new, hrun, hfile, hfits, hlog, hspells⟩ :=
      ih hlayout hafter.ready (hafter.ofs_eq hlayout)
    rw [htype, hunused, hafter.wordIdx_eq] at hspells
    rw [hofs] at hgroup
    rw [List.append_assoc] at hfile hfits hlog
    refine ⟨t, g :: tail ++ new, ?_, hfile, hfits, hlog, .step hgroup hspells⟩
    rw [List.foldlM_cons, happly]
    exact hrun

/-- A sequence of operations succeeds, and leaves room for the next control word. -/
theorem run_spec (ops : List Op) (h : Layout s gs) (hr : Ready s) :
    ∃ t new, ops.foldlM apply s = .ok t ∧ Layout t new ∧ Ready t := by
  induction ops generalizing s gs with
  | nil => exact ⟨s, gs, rfl, h, hr⟩
  | cons op ops ih =>
    obtain ⟨s', g, tail, happly, hlayout, hafter, -⟩ := apply_spec op h hr
    rw [List.foldlM_cons, happly]
    exact ih hlayout hafter.ready

end runs

/-! ## 2. Following the forward indices -/

/-- The control words met from `pos` on, every one at the place to which the forward index of the
    one before leads. -/
def walk (aFile : List (BitVec 8)) : Nat → Nat → List (Nat × DsCtrlWord)
  | 0, _ => []
  | rounds + 1, pos =>
    match readCtrlWord aFile pos with
    | .error _ => []
    | .ok (w, next) => (pos, w) :: walk aFile rounds (next + 8 * w.getForwardWordIdx.toNat)

/-- **The walk visits the segments**, by induction on the segments. -/
theorem walk_image {pre : List (BitVec 8)} {gs : List Segment} {rounds : Nat}
    (hfits : ∀ m ∈ marks Segment.bytes pre.length gs, m.2.Fits m.1) (hrounds : gs.length < rounds) :
    walk (pre ++ image Segment.bytes gs) rounds pre.length =
      (marks Segment.bytes pre.length gs).map fun m => (m.1, m.2.ctrlWord) := by
  induction gs generalizing pre rounds with
  | nil =>
    obtain ⟨rounds, rfl⟩ := Nat.exists_eq_add_one.mpr hrounds
    have hend : readCtrlWord (pre ++ image Segment.bytes []) pre.length =
        .error (.generic "Can't read from file") := by
      rw [readCtrlWord, if_neg (by simp)]
    rw [walk, hend]
    rfl
  | cons g gs ih =>
    obtain ⟨rounds, rfl⟩ := Nat.exists_eq_add_one.mpr (Nat.zero_lt_of_lt hrounds)
    have hforward : g.data.length = 8 * g.ctrlWord.getForwardWordIdx.toNat :=
      (hfits (pre.length, g) List.mem_cons_self).forward
    have hread := readCtrlWord_append pre (g.data ++ image Segment.bytes gs) g.ctrlWord
    have hfile : pre ++ (g.ctrlWord.bytes ++ (g.data ++ image Segment.bytes gs)) =
        (pre ++ g.bytes) ++ image Segment.bytes gs := by
      simp only [Segment.bytes, List.append_assoc]
    have hnext : pre.length + 8 + 8 * g.ctrlWord.getForwardWordIdx.toNat = (pre ++ g.bytes).length := by
      rw [List.length_append, Segment.length_bytes]
      omega
    have hlen : pre.length + g.bytes.length = (pre ++ g.bytes).length := List.length_append.symm
    rw [hfile] at hread
    rw [image_cons, ← List.append_assoc, walk, hread, marks_cons, List.map_cons]
    show _ :: walk _ rounds (pre.length + 8 + 8 * g.ctrlWord.getForwardWordIdx.toNat) = _
    rw [hnext, hlen, ih (fun m hm => hfits m (List.mem_cons_of_mem _ (hlen ▸ hm)))
      (Nat.lt_of_succ_lt_succ hrounds)]

/-! ## 3. Well-formedness -/

/-- The dataset of a sequence of operations, as segments. -/
theorem flushed (ops : List Op) :
    ∃ t gs, (run ops >>= flush) = .ok t ∧ t.file = image Segment.bytes gs ∧
      (∀ m ∈ marks Segment.bytes 0 gs, m.2.Fits m.1) ∧
      t.written = (marks Segment.bytes 0 gs).map (fun m => (m.1, m.2.ctrlWord)) ∧
      Spells .BCW 0 0 ops gs :=
  run_flush ops layout_init ready_init rfl

section shape
variable {t : CtrlWordType} {u n : Nat} {ops : List Op} {gs : List Segment}

theorem Spells.length_le (h : Spells t u n ops gs) : ops.length + 2 ≤ gs.length := by
  induction h with
  | flush hgroup hone htype hdata =>
    rw [List.length_append, List.length_cons, List.length_singleton, List.length_nil]
    omega
  | step hgroup hrest ih =>
    rw [List.length_append, List.length_cons, List.length_cons]
    omega

/-- The types of the control words, the block control words left out. -/
def recordTypes (ws : List DsCtrlWord) : List CtrlWordType :=
  (ws.map DsCtrlWord.getType).filter (· ≠ .BCW)

theorem recordTypes_append (ws ws' : List DsCtrlWord) :
    recordTypes (ws ++ ws') = recordTypes ws ++ recordTypes ws' := by
  rw [recordTypes, List.map_append, List.filter_append]
  rfl

theorem mem_recordTypes {w : DsCtrlWord} {ws : List DsCtrlWord} (h : w ∈ ws)
    (ht : w.getType ≠ .BCW) : w.getType ∈ recordTypes ws :=
  List.mem_filter.2 ⟨List.mem_map_of_mem h, by simpa using ht⟩

theorem Group.recordTypes_eq {ofs : Nat} {bs : List (BitVec 8)} {g : Segment} {tail : List Segment}
    (h : Group t u ofs bs g tail) :
    recordTypes ((g :: tail).map Segment.ctrlWord) = [t].filter (· ≠ .BCW) := by
  have htail : recordTypes (tail.map Segment.ctrlWord) = [] := by
    refine List.filter_eq_nil_iff.2 fun a ha => ?_
    obtain ⟨w, hw, rfl⟩ := List.mem_map.1 ha
    obtain ⟨x, hx, rfl⟩ := List.mem_map.1 hw
    simp [h.bcws x hx]
  have happend := recordTypes_append [g.ctrlWord] (tail.map Segment.ctrlWord)
  rw [htail, List.append_nil] at happend
  rw [List.map_cons, ← List.singleton_append, happend, recordTypes, List.map_singleton, h.type]

/-- One control word for every operation, and the end of the dataset. -/
theorem Spells.recordTypes_eq (h : Spells t u n ops gs) :
    recordTypes (gs.map Segment.ctrlWord) =
      [t].filter (· ≠ .BCW) ++ ops.map Op.ctrlType ++ [.EOD] := by
  induction h with
  | flush hgroup hone htype hdata =>
    rw [List.map_append, recordTypes_append, hgroup.recordTypes_eq, List.map_nil, List.append_nil,
      List.map_singleton, recordTypes, List.map_singleton, htype]
    rfl
  | @step t u n op ops g tail gs hgroup hrest ih =>
    have hop : [op.ctrlType].filter (· ≠ .BCW) = [op.ctrlType] := by cases op <;> rfl
    rw [List.map_append, recordTypes_append, hgroup.recordTypes_eq, ih, hop, List.map_cons]
    simp only [List.append_assoc, List.cons_append, List.nil_append]

/-- The last segments: the control word of the last operation, the block control word of the
    block it may have filled, the end of the dataset. -/
theorem Spells.last (h : Spells t u n ops gs) :
    ∃ pre g tail last, gs = pre ++ (g :: tail ++ [last]) ∧
      g.ctrlWord.getType = (ops.getLast?.map Op.ctrlType).getD t ∧
      g.data = [] ∧ (∀ b ∈ tail, b.ctrlWord.getType = .BCW ∧ b.data = []) ∧ tail.length ≤ 1 ∧
      last.ctrlWord.getType = .EOD := by
  induction h with
  | @flush t u n g tail last hgroup hone htype hdata =>
    have hnil := hgroup.data
    rw [show padded (wordCnt []) [] = [] from rfl, List.append_eq_nil_iff,
      List.flatMap_eq_nil_iff] at hnil
    exact ⟨[], g, tail, last, rfl, hgroup.type, hnil.1,
      fun b hb => ⟨hgroup.bcws b hb, hnil.2 b hb⟩, hone, htype⟩
  | @step t u n op ops g tail gs hgroup hrest ih =>
    obtain ⟨pre, g', tail', last, rfl, htype, hrest⟩ := ih
    refine ⟨g :: tail ++ pre, g', tail', last, (List.append_assoc _ _ _).symm, ?_, hrest⟩
    rw [htype, List.getLast?_cons]
    cases ops.getLast? <;> rfl

end shape

/-- The control words end with an `EOF` and the `EOD` behind it; between them there is only the
    control word of a new block, when the `EOF` is the last word of its block. -/
def EndsInEof (ws : List (Nat × DsCtrlWord)) : Prop :=
  ∃ pre p e mid q d, ws = pre ++ ((p, e) :: mid ++ [(q, d)]) ∧ e.getType = .EOF ∧ d.getType = .EOD ∧
    (mid = [] ∧ q = p + 8 ∨
      ∃ b, mid = [(p + 8, b)] ∧ (p + 8) % 4096 = 0 ∧ b.getType = .BCW ∧ q = p + 16)

theorem endsInEof_marks {gs pre tail : List Segment} {g last : Segment}
    (hgs : gs = pre ++ (g :: tail ++ [last]))
    (hfits : ∀ m ∈ marks Segment.bytes 0 gs, m.2.Fits m.1)
    (heof : g.ctrlWord.getType = .EOF) (hdata : g.data = [])
    (htail : ∀ b ∈ tail, b.ctrlWord.getType = .BCW ∧ b.data = []) (hone : tail.length ≤ 1)
    (heod : last.ctrlWord.getType = .EOD) :
    EndsInEof ((marks Segment.bytes 0 gs).map fun m => (m.1, m.2.ctrlWord)) := by
  have hg : g.bytes.length = 8 := by rw [Segment.length_bytes, hdata]; rfl
  obtain ⟨p, hp⟩ : ∃ p, p = 0 + (image Segment.bytes pre).length := ⟨_, rfl⟩
  rcases tail with _ | ⟨b, _ | ⟨c, tail⟩⟩
  · have hmarks : marks Segment.bytes 0 gs =
        marks Segment.bytes 0 pre ++ [(p, g), (p + 8, last)] := by
      rw [hgs, marks_append, ← hp, List.cons_append, marks_cons, hg]
      rfl
    refine ⟨(marks Segment.bytes 0 pre).map fun m => (m.1, m.2.ctrlWord), p, g.ctrlWord, [], p + 8,
      last.ctrlWord, ?_, heof, heod, .inl ⟨rfl, rfl⟩⟩
    rw [hmarks, List.map_append]
    rfl
  · obtain ⟨hbcw, hb⟩ := htail b List.mem_cons_self
    have hblen : b.bytes.length = 8 := by rw [Segment.length_bytes, hb]; rfl
    have hmarks : marks Segment.bytes 0 gs =
        marks Segment.bytes 0 pre ++ [(p, g), (p + 8, b), (p + 16, last)] := by
      rw [hgs, marks_append, ← hp, List.cons_append, marks_cons, hg, List.cons_append, marks_cons,
        hblen]
      rfl
    have hstart : (p + 8) % 4096 = 0 := (hfits (p + 8, b) (by rw [hmarks]; simp)).bcw hbcw
    refine ⟨(marks Segment.bytes 0 pre).map fun m => (m.1, m.2.ctrlWord), p, g.ctrlWord,
      [(p + 8, b.ctrlWord)], p + 16, last.ctrlWord, ?_, heof, heod, .inr ⟨_, rfl, hstart, hbcw, rfl⟩⟩
    rw [hmarks, List.map_append]
    rfl
  · exact absurd hone (by simp)

/-- The bytes at the position of a segment are its control word. -/
theorem readCtrlWord_mark {gs : List Segment} {p : Nat} {g : Segment}
    (h : (p, g) ∈ marks Segment.bytes 0 gs) :
    readCtrlWord (image Segment.bytes gs) p = .ok (g.ctrlWord, p + 8) := by
  obtain ⟨pre, post, rfl, rfl⟩ := exists_of_mem_marks h
  have hread := readCtrlWord_append (image Segment.bytes pre) (g.data ++ image Segment.bytes post)
    g.ctrlWord
  rw [image_append, image_cons, Segment.bytes, List.append_assoc, Nat.zero_add]
  exact hread

section assembled
variable {t : DataSet} {gs : List Segment} {ops : List Op}

theorem walk_of_segments (hfile : t.file = image Segment.bytes gs)
    (hfits : ∀ m ∈ marks Segment.bytes 0 gs, m.2.Fits m.1)
    (hlog : t.written = (marks Segment.bytes 0 gs).map fun m => (m.1, m.2.ctrlWord)) :
    walk t.file (t.file.length + 1) 0 = t.written := by
  have hrounds : gs.length < (image Segment.bytes gs).length + 1 :=
    Nat.lt_succ_of_le (length_le_image gs)
  rw [hfile, hlog]
  exact @walk_image [] gs _ hfits hrounds

theorem recordTypes_of_segments
    (hlog : t.written = (marks Segment.bytes 0 gs).map fun m => (m.1, m.2.ctrlWord))
    (hspells : Spells .BCW 0 0 ops gs) :
    recordTypes (t.written.map Prod.snd) = ops.map Op.ctrlType ++ [.EOD] := by
  have hwords : t.written.map Prod.snd = gs.map Segment.ctrlWord := by
    rw [hlog, List.map_map, ← map_snd_marks Segment.bytes 0 gs, List.map_map, map_snd_marks]
    rfl
  rw [hwords, hspells.recordTypes_eq]
  rfl

end assembled

/-- **Datasets are well formed.** For every sequence of operations that `Flush` ends:
    every block starts with its block control word, the walk along the forward indices meets the
    control words that were written and nothing else, these are one `EOR` for every record and one
    `EOF` for every end of file, in order, then `EOD`, and between two operations there is room for
    the control word that waits. -/
theorem dataset_wellFormed (ops : List Op) :
    ∃ s, (run ops >>= flush) = .ok s ∧
      (∀ k, 4096 * k < s.file.length → ∃ w, readCtrlWord s.file (4096 * k) = .ok (w, 4096 * k + 8) ∧
        w.getType = .BCW ∧ w.getBlockNumber.toNat = k % 2 ^ 24) ∧
      walk s.file (s.file.length + 1) 0 = s.written ∧
      recordTypes (s.written.map Prod.snd) = ops.map Op.ctrlType ++ [.EOD] ∧
      (ops.getLast? = some .eof → EndsInEof s.written) ∧
      (∀ m ∈ s.written, m.2.getForwardWordIdx.toNat ≤ 511 ∧ m.2.getUnusedBitCnt.toNat ≤ 56) ∧
      ∀ pre, pre <+: ops → ∃ t, run pre = .ok t ∧ t.mBlockOfs % 8 = 0 ∧ t.mBlockOfs ≤ 4088 := by
  obtain ⟨s, gs, hrun, hfile, hfits, hlog, hspells⟩ := flushed ops
  refine ⟨s, hrun, fun k hk => ?_, ?_, ?_, fun hlast => ?_, fun m hm => ?_, fun pre _ => ?_⟩
  · rw [hfile] at hk ⊢
    obtain ⟨g, hg⟩ := exists_mark_of_mul (fun m hm => (hfits m hm).inBlock) (Nat.zero_le _)
      (by rwa [Nat.zero_add])
    have hstart := (hfits _ hg).blockStart (Nat.mul_mod_right 4096 k)
    refine ⟨g.ctrlWord, readCtrlWord_mark hg, hstart.1, ?_⟩
    rw [hstart.2, Nat.mul_div_cancel_left k (by decide)]
  · exact walk_of_segments hfile hfits hlog
  · exact recordTypes_of_segments hlog hspells
  · obtain ⟨pre, g, tail, last, hgs, htype, hdata, htail, hone, heod⟩ := hspells.last
    rw [hlast] at htype
    rw [hlog]
    exact endsInEof_marks hgs hfits htype hdata htail hone heod
  · rw [hlog] at hm
    obtain ⟨⟨p, g⟩, hx, rfl⟩ := List.mem_map.1 hm
    have hfit : Segment.Fits p g := hfits (p, g) hx
    have hlen := hfit.inBlock
    have hforward := hfit.forward
    rw [Segment.length_bytes] at hlen
    refine ⟨?_, hfit.unused⟩
    show g.ctrlWord.getForwardWordIdx.toNat ≤ 511
    omega
  · obtain ⟨t, new, ht, hlayout, hready⟩ := run_spec pre layout_init ready_init
    exact ⟨t, ht, hlayout.aligned, hready.room⟩

/-- Without a last `WriteEof` there is no end of file in front of the end of the dataset. -/
theorem dataset_wellFormed_noEof :
    ¬ ∀ ops : List Op, ∃ s, (run ops >>= flush) = .ok s ∧
      EndsInEof (walk s.file (s.file.length + 1) 0) := by
  rintro h
  obtain ⟨s, hrun, pre, p, e, mid, q, d, hwalk, heof, -⟩ := h [.record [1]]
  obtain ⟨t, gs, hrun', hfile, hfits, hlog, hspells⟩ := flushed [.record [1]]
  obtain rfl := Except.ok.inj (hrun.symm.trans hrun')
  have htypes := recordTypes_of_segments hlog hspells
  rw [walk_of_segments hfile hfits hlog] at hwalk
  have hmem : CtrlWordType.EOF ∈ recordTypes (s.written.map Prod.snd) := by
    rw [← heof]
    refine mem_recordTypes ?_ (by rw [heof]; decide)
    rw [hwalk]
    simp
  rw [htypes] at hmem
  exact absurd hmem (by decide)

end DataSet

end CraySim
