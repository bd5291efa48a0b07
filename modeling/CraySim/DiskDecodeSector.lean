/-
  Subject:   The candidates of a sector.

  `Sector_c` of `disk_decode.cpp`. A sector that was read several times may have come out
  differently; each outcome is a candidate, with how often it was found and its least error rate.
  The best candidate is looked for by a scan, and the others are numbered by leaving it out.

  * `SectorInfo.betterThan`, `Sector.bestIdx` -- the scan,
  * `getBestData`, `getAlternateCnt`, `getAlternateData`,
  * `collect_eq` -- the candidates it does give,
  * `bestIdx_spec` -- the scan ends at the best candidate,
  * `alternateData_perm_iff` -- the alternates are the other candidates where the best one is the
    last or the last but one,
  * `candidates_right_iff` -- the same, said of the calls.
-/
import CraySim.DiskDecode
import CraySim.Types
import Mathlib.Data.List.Induction
import Mathlib.Data.List.Nodup

namespace CraySim

namespace DiskDecode

/-! ## 1. The class -/

def SectorInfo.betterThan (a aB : SectorInfo) : Bool :=
  if aB.RecoveryCount < a.RecoveryCount then true
  else decide (a.RecoveryCount = aB.RecoveryCount ∧ a.ErrorRate < aB.ErrorRate)

namespace Sector

def isValid (mData : Sector) : Bool := mData.length != 0

/-- One round of the loop that `GetBestData` and `GetAlternateData` have in common. -/
def bestStep (mData : Sector) (bestIdx idx : Nat) : Nat :=
  match mData[idx]?, mData[bestIdx]? with
  | some a, some b => if a.betterThan b then idx else bestIdx
  | _, _ => bestIdx

/-- The loop. -/
def bestIdx (mData : Sector) : Nat :=
  (List.range mData.length).foldl mData.bestStep 0

/-- `mData[aIdx].Data`, with the assertion that there is such an entry. -/
def dataAt (mData : Sector) (aIdx : Nat) : Except Exn (List (BitVec 8)) :=
  match mData[aIdx]? with
  | some info => .ok info.Data
  | none => .error .assertion

def getBestData (mData : Sector) : Except Exn (List (BitVec 8)) :=
  if mData.isValid then mData.dataAt mData.bestIdx else .error .assertion

def getAlternateCnt (mData : Sector) : Except Exn Nat :=
  if mData.isValid then .ok (mData.length - 1) else .error .assertion

def getAlternateData (mData : Sector) (aIdx : Nat) : Except Exn (List (BitVec 8)) :=
  if mData.isValid then mData.dataAt (if aIdx = mData.bestIdx then aIdx + 1 else aIdx)
  else .error .assertion

/-- The calls of `GetAlternateData` in `WriteAlternatesToDisk`. -/
def alternates (mData : Sector) : Except Exn (List (List (BitVec 8))) := do
  let alternateCnt ← mData.getAlternateCnt
  (List.range alternateCnt).mapM mData.getAlternateData

/-- A sector after calls of `SetData`. -/
def collect (given : List (List (BitVec 8) × Nat)) : Sector :=
  given.foldl (fun mData g => mData.setData g.1 g.2) []

end Sector

/-! ## 2. What the calls should give -/

section given
variable (given : List (List (BitVec 8) × Nat))

/-- The data given, each once, in the order of the first calls. -/
def datas : List (List (BitVec 8)) := (given.map Prod.fst).eraseDups

/-- The rates given with some data. -/
def rates (data : List (BitVec 8)) : List Nat :=
  (given.filter (·.1 = data)).map Prod.snd

/-- The candidate for some data. -/
def infoOf (data : List (BitVec 8)) : SectorInfo where
  Data := data
  ErrorRate := (rates given data).min?.getD 0
  RecoveryCount := (rates given data).length

end given

variable {given : List (List (BitVec 8) × Nat)}

variable {data : List (BitVec 8)}

theorem mem_datas : data ∈ datas given ↔ data ∈ given.map Prod.fst :=
  List.mem_eraseDups

theorem datas_append (data : List (BitVec 8)) (rate : Nat) :
    datas (given ++ [(data, rate)]) =
      if data ∈ datas given then datas given else datas given ++ [data] := by
  have hlast : datas (given ++ [(data, rate)]) =
      datas given ++ ([data].removeAll (given.map Prod.fst)).eraseDups := by
    rw [datas, List.map_append, List.eraseDups_append]
    rfl
  rw [hlast, List.removeAll]
  by_cases hmem : data ∈ given.map Prod.fst
  · rw [if_pos (mem_datas.mpr hmem)]
    simp [hmem]
  · rw [if_neg (mt mem_datas.mp hmem)]
    simp [hmem, List.eraseDups_cons]

theorem nodup_datas : (datas given).Nodup := by
  induction given using List.reverseRecOn with
  | nil => exact List.nodup_nil
  | append_singleton given g ih =>
    rw [datas_append]
    split
    · exact ih
    · rename_i hnew
      exact List.nodup_append.mpr ⟨ih, List.nodup_singleton _, fun d hd e he heq =>
        hnew (List.mem_singleton.mp he ▸ heq ▸ hd)⟩

theorem rates_append (data : List (BitVec 8)) (rate : Nat) (data' : List (BitVec 8)) :
    rates (given ++ [(data, rate)]) data' =
      rates given data' ++ if data = data' then [rate] else [] := by
  rw [rates, List.filter_append, List.map_append]
  by_cases h : data = data' <;> simp [rates, h]

theorem rates_ne_nil (h : data ∈ datas given) : rates given data ≠ [] := by
  obtain ⟨g, hg, rfl⟩ := List.mem_map.mp (mem_datas.mp h)
  exact List.ne_nil_of_mem (List.mem_map_of_mem (List.mem_filter.mpr ⟨hg, by simp⟩))

theorem rates_eq_nil (h : data ∉ datas given) : rates given data = [] := by
  rw [rates, List.map_eq_nil_iff, List.filter_eq_nil_iff]
  intro g hg heq
  exact h (mem_datas.mpr (of_decide_eq_true heq ▸ List.mem_map_of_mem hg))

theorem min?_append_singleton {l : List Nat} (h : l ≠ []) (a : Nat) :
    (l ++ [a]).min?.getD 0 = min (l.min?.getD 0) a := by
  cases l with
  | nil => exact absurd rfl h
  | cons b l => rw [List.cons_append, List.min?_cons', List.min?_cons', List.foldl_append]; rfl

/-- A candidate that is found once more. -/
def SectorInfo.again (info : SectorInfo) (aErrorRate : Nat) : SectorInfo :=
  { info with
    ErrorRate := min info.ErrorRate aErrorRate
    RecoveryCount := info.RecoveryCount + 1 }

theorem infoOf_append_other {data data' : List (BitVec 8)} (h : data ≠ data') (rate : Nat) :
    infoOf (given ++ [(data, rate)]) data' = infoOf given data' := by
  rw [infoOf, rates_append, if_neg h, List.append_nil]
  rfl

theorem infoOf_append_again (h : data ∈ datas given) (rate : Nat) :
    infoOf (given ++ [(data, rate)]) data = (infoOf given data).again rate := by
  rw [infoOf, rates_append, if_pos rfl, min?_append_singleton (rates_ne_nil h), List.length_append]
  rfl

theorem infoOf_append_new (h : data ∉ datas given) (rate : Nat) :
    infoOf (given ++ [(data, rate)]) data = ⟨data, rate, 1⟩ := by
  rw [infoOf, rates_append, if_pos rfl, rates_eq_nil h]
  rfl

/-! ## 3. What the calls give -/

theorem setData_cons (data : List (BitVec 8)) (rate : Nat) (info : SectorInfo) (rest : Sector) :
    Sector.setData data rate (info :: rest) =
      if info.Data = data then info.again rate :: rest
      else info :: Sector.setData data rate rest := rfl

/-- `SetData` of a candidate that is there. -/
theorem setData_again {info info' : List (BitVec 8) → SectorInfo} (hinfo : ∀ d, (info d).Data = d)
    {rate : Nat} (hagain : info' data = (info data).again rate)
    (hother : ∀ d, data ≠ d → info' d = info d) :
    ∀ ds : List (List (BitVec 8)), ds.Nodup → data ∈ ds →
      Sector.setData data rate (ds.map info) = ds.map info'
  | d :: ds, hnodup, hmem => by
    obtain ⟨hd, hds⟩ := List.nodup_cons.mp hnodup
    rw [List.map_cons, setData_cons, hinfo, List.map_cons]
    by_cases heq : d = data
    · subst heq
      have hrest : ds.map info = ds.map info' :=
        List.map_congr_left fun e he => (hother e fun h => hd (h ▸ he)).symm
      rw [if_pos rfl, hagain, hrest]
    · have hmem' : data ∈ ds := (List.mem_cons.mp hmem).resolve_left (Ne.symm heq)
      rw [if_neg heq, hother d (Ne.symm heq), setData_again hinfo hagain hother ds hds hmem']

/-- `SetData` of a new candidate. -/
theorem setData_new (data : List (BitVec 8)) (rate : Nat) :
    ∀ mData : Sector, data ∉ mData.map SectorInfo.Data →
      mData.setData data rate = mData ++ [⟨data, rate, 1⟩]
  | [], _ => rfl
  | info :: rest, hnew => by
    rw [List.map_cons, List.mem_cons, not_or] at hnew
    rw [setData_cons, if_neg (Ne.symm hnew.1), setData_new data rate rest hnew.2]
    rfl

theorem map_data_infoOf (given : List (List (BitVec 8) × Nat)) (ds : List (List (BitVec 8))) :
    (ds.map (infoOf given)).map SectorInfo.Data = ds := by
  rw [List.map_map]
  exact List.map_id ds

/-- **The candidates are the data given, counted, with the least rates.** -/
theorem collect_eq (given : List (List (BitVec 8) × Nat)) :
    Sector.collect given = (datas given).map (infoOf given) := by
  induction given using List.reverseRecOn with
  | nil => rfl
  | append_singleton given g ih =>
    obtain ⟨data, rate⟩ := g
    have hstep : Sector.collect (given ++ [(data, rate)]) =
        Sector.setData data rate (Sector.collect given) := List.foldl_append
    rw [hstep, ih, datas_append]
    by_cases hmem : data ∈ datas given
    · rw [if_pos hmem]
      exact setData_again (fun _ => rfl) (infoOf_append_again hmem rate)
        (fun d hd => infoOf_append_other hd rate) (datas given) nodup_datas hmem
    · have hold : (datas given).map (infoOf given) =
          (datas given).map (infoOf (given ++ [(data, rate)])) :=
        List.map_congr_left fun d hd =>
          (infoOf_append_other (ne_of_mem_of_not_mem hd hmem).symm rate).symm
      rw [if_neg hmem, setData_new data rate _ (by rwa [map_data_infoOf]), hold, List.map_append,
        List.map_singleton, infoOf_append_new hmem]

/-! ## 4. The scan -/

theorem SectorInfo.betterThan_iff (a b : SectorInfo) :
    a.betterThan b = true ↔ b.RecoveryCount < a.RecoveryCount ∨
      a.RecoveryCount = b.RecoveryCount ∧ a.ErrorRate < b.ErrorRate := by
  rw [SectorInfo.betterThan]
  split
  · rename_i h
    simp [h]
  · rename_i h
    simp [h]

namespace Sector

/-- An entry is better than another one. -/
def Better (mData : Sector) (i j : Nat) : Prop :=
  ∃ a b, mData[i]? = some a ∧ mData[j]? = some b ∧ a.betterThan b = true

/-- The first of the best of the first entries. -/
structure BestUpTo (mData : Sector) (cnt b : Nat) : Prop where
  lt : b < cnt
  before : ∀ i < b, mData.Better b i
  none_better : ∀ i < cnt, ¬ mData.Better i b

variable {mData : Sector}

theorem Better.irrefl (i : Nat) : ¬ mData.Better i i := by
  rintro ⟨a, b, ha, hb, hbetter⟩
  obtain rfl := Option.some.inj (ha.symm.trans hb)
  rw [SectorInfo.betterThan_iff] at hbetter
  omega

theorem Better.trans {i j k : Nat} (hij : mData.Better i j) (hjk : mData.Better j k) :
    mData.Better i k := by
  obtain ⟨a, b, ha, hb, hab⟩ := hij
  obtain ⟨b', c, hb', hc, hbc⟩ := hjk
  obtain rfl := Option.some.inj (hb.symm.trans hb')
  rw [SectorInfo.betterThan_iff] at hab hbc
  refine ⟨a, c, ha, hc, (SectorInfo.betterThan_iff a c).mpr ?_⟩
  omega

theorem Better.of_not {i j k : Nat} (hij : mData.Better i j) (hk : k < mData.length)
    (hkj : ¬ mData.Better k j) : mData.Better i k := by
  obtain ⟨a, b, ha, hb, hab⟩ := hij
  obtain ⟨c, hc⟩ : ∃ c, mData[k]? = some c := ⟨_, List.getElem?_eq_getElem hk⟩
  have hcb : ¬ c.betterThan b = true := fun h => hkj ⟨c, b, hc, hb, h⟩
  rw [SectorInfo.betterThan_iff] at hab hcb
  refine ⟨a, c, ha, hc, (SectorInfo.betterThan_iff a c).mpr ?_⟩
  omega

theorem bestStep_of_better {b idx : Nat} (h : mData.Better idx b) :
    mData.bestStep b idx = idx := by
  obtain ⟨a, c, ha, hc, hac⟩ := h
  simp only [bestStep, ha, hc, hac, if_true]

theorem bestStep_of_not {b idx : Nat} (h : ¬ mData.Better idx b) : mData.bestStep b idx = b := by
  rw [bestStep]
  split
  · rename_i a c ha hc
    exact if_neg fun hac => h ⟨a, c, ha, hc, hac⟩
  · rfl

theorem BestUpTo.step {cnt b : Nat} (h : mData.BestUpTo cnt b) (hcnt : cnt < mData.length) :
    mData.BestUpTo (cnt + 1) (mData.bestStep b cnt) := by
  by_cases hbetter : mData.Better cnt b
  · rw [bestStep_of_better hbetter]
    refine ⟨Nat.lt_succ_self cnt, fun i hi => ?_, fun i hi hic => ?_⟩
    · exact hbetter.of_not (hi.trans hcnt) (h.none_better i hi)
    · rcases Nat.lt_succ_iff_lt_or_eq.mp hi with hi | rfl
      · exact h.none_better i hi (hic.trans hbetter)
      · exact Better.irrefl i hic
  · rw [bestStep_of_not hbetter]
    refine ⟨Nat.lt_succ_of_lt h.lt, h.before, fun i hi => ?_⟩
    rcases Nat.lt_succ_iff_lt_or_eq.mp hi with hi | rfl
    · exact h.none_better i hi
    · exact hbetter

/-- **The scan ends at the first of the best candidates.** -/
theorem bestIdx_spec (h : mData ≠ []) : mData.BestUpTo mData.length mData.bestIdx := by
  have hrun : ∀ cnt < mData.length,
      mData.BestUpTo (cnt + 1) ((List.range (cnt + 1)).foldl mData.bestStep 0) := by
    intro cnt
    induction cnt with
    | zero =>
      intro _
      have hfirst : mData.bestStep 0 0 = 0 := bestStep_of_not (Better.irrefl 0)
      refine ⟨?_, fun i hi => absurd hi ?_, fun i hi => ?_⟩
      · simp [hfirst]
      · simp [hfirst]
      · obtain rfl := Nat.lt_one_iff.mp hi
        simpa [hfirst] using Better.irrefl 0
    | succ cnt ih =>
      intro hcnt
      rw [List.range_succ, List.foldl_append]
      exact (ih (Nat.lt_of_succ_lt hcnt)).step hcnt
  obtain ⟨cnt, hcnt⟩ := Nat.exists_eq_succ_of_ne_zero (List.length_pos_iff.mpr h).ne'
  rw [bestIdx, hcnt]
  exact hrun cnt (by omega)

theorem BestUpTo.unique {cnt b b' : Nat} (h : mData.BestUpTo cnt b) (h' : mData.BestUpTo cnt b') :
    b = b' := by
  rcases Nat.lt_trichotomy b b' with hlt | heq | hlt
  · exact absurd (h'.before b hlt) (h.none_better b' h'.lt)
  · exact heq
  · exact absurd (h.before b' hlt) (h'.none_better b h.lt)

/-! ## 5. The alternates -/

/-- The entry `GetAlternateData` takes for an index. -/
def alternateIdx (bestIdx aIdx : Nat) : Nat := if aIdx = bestIdx then aIdx + 1 else aIdx

theorem alternateIdx_lt {b i n : Nat} (hi : i < n - 1) : alternateIdx b i < n := by
  rw [alternateIdx]
  split <;> omega

theorem alternateIdx_ne (b i : Nat) : alternateIdx b i ≠ b := by
  rw [alternateIdx]
  split <;> omega

theorem mapM_dataAt (idx : Nat → Nat) :
    ∀ is : List Nat, (∀ i ∈ is, idx i < mData.length) →
      is.mapM (fun i => mData.dataAt (idx i)) =
        .ok (is.map fun i => (mData.map SectorInfo.Data).getD (idx i) [])
  | [], _ => rfl
  | i :: is, h => by
    have hlt : idx i < mData.length := h i List.mem_cons_self
    have hi : mData[idx i]? = some mData[idx i] := List.getElem?_eq_getElem hlt
    have hrest := mapM_dataAt idx is fun j hj => h j (List.mem_cons_of_mem i hj)
    rw [List.mapM_cons, hrest, dataAt, hi, List.map_cons, List.getD_eq_getElem?_getD,
      List.getElem?_map, hi]
    rfl

/-- The data behind the numbers of the alternates. -/
def alternateData (ds : List (List (BitVec 8))) (b : Nat) : List (List (BitVec 8)) :=
  (List.range (ds.length - 1)).map fun i => ds.getD (alternateIdx b i) []

theorem alternates_eq (h : mData ≠ []) :
    mData.alternates = .ok (alternateData (mData.map SectorInfo.Data) mData.bestIdx) := by
  have hvalid : mData.isValid = true := by simp [isValid, h]
  have hget : mData.getAlternateData = fun i => mData.dataAt (alternateIdx mData.bestIdx i) := by
    funext i
    rw [getAlternateData, if_pos hvalid]
    rfl
  rw [alternates, getAlternateCnt, if_pos hvalid, hget, alternateData, List.length_map]
  exact mapM_dataAt _ _ fun i hi => alternateIdx_lt (List.mem_range.mp hi)

variable {ds : List (List (BitVec 8))}

theorem mem_alternateData {b : Nat} {data : List (BitVec 8)} :
    data ∈ alternateData ds b ↔ ∃ i < ds.length - 1, ds[alternateIdx b i]? = some data := by
  rw [alternateData, List.mem_map]
  refine ⟨fun ⟨i, hi, heq⟩ => ?_, fun ⟨i, hi, heq⟩ => ⟨i, List.mem_range.mpr hi, ?_⟩⟩
  · have hlt := alternateIdx_lt (b := b) (List.mem_range.mp hi)
    rw [List.getD_eq_getElem _ _ hlt] at heq
    exact ⟨i, List.mem_range.mp hi, heq ▸ List.getElem?_eq_getElem hlt⟩
  · rw [List.getD_eq_getElem?_getD, heq]
    rfl

/-- The last candidate has no number where the best one is in front of the last but one. -/
theorem last_not_mem_alternateData (hds : ds.Nodup) {b : Nat}
    (hb : b + 2 < ds.length) : ds[ds.length - 1] ∉ alternateData ds b := by
  rw [mem_alternateData]
  rintro ⟨i, hi, heq⟩
  have hlt := alternateIdx_lt (b := b) hi
  rw [List.getElem?_eq_getElem hlt, Option.some.injEq, hds.getElem_inj_iff, alternateIdx] at heq
  split at heq <;> omega

theorem nodup_alternateData (hds : ds.Nodup) {b : Nat}
    (hb : ds.length ≤ b + 2) : (alternateData ds b).Nodup := by
  refine List.Nodup.map_on (fun i hi j hj heq => ?_) List.nodup_range
  have hi' := alternateIdx_lt (b := b) (List.mem_range.mp hi)
  have hj' := alternateIdx_lt (b := b) (List.mem_range.mp hj)
  rw [List.getD_eq_getElem _ _ hi', List.getD_eq_getElem _ _ hj', hds.getElem_inj_iff,
    alternateIdx, alternateIdx] at heq
  rw [List.mem_range] at hi hj
  split at heq <;> split at heq <;> omega

/-- **The alternates are the other candidates where the best one is the last or the last but
    one.** -/
theorem alternateData_perm_iff (hds : ds.Nodup) {b : Nat} (hb : b < ds.length) :
    (alternateData ds b).Perm (ds.erase ds[b]) ↔ ds.length ≤ b + 2 := by
  constructor
  · intro hperm
    by_contra hlt
    have hne : ds[ds.length - 1] ≠ ds[b] := fun h => by
      have := hds.getElem_inj_iff.mp h
      omega
    have hlast : ds[ds.length - 1] ∈ ds.erase ds[b] :=
      hds.mem_erase_iff.mpr ⟨hne, List.getElem_mem _⟩
    exact last_not_mem_alternateData hds (by omega) (hperm.mem_iff.mpr hlast)
  · intro hle
    rw [List.perm_ext_iff_of_nodup (nodup_alternateData hds hle) (hds.erase _)]
    intro data
    rw [mem_alternateData, hds.mem_erase_iff]
    constructor
    · rintro ⟨i, hi, heq⟩
      have hlt := alternateIdx_lt (b := b) hi
      rw [List.getElem?_eq_getElem hlt] at heq
      obtain rfl := Option.some.inj heq
      exact ⟨fun h => alternateIdx_ne b i (hds.getElem_inj_iff.mp h), List.getElem_mem hlt⟩
    · rintro ⟨hne, hmem⟩
      obtain ⟨j, hj, rfl⟩ := List.mem_iff_getElem.mp hmem
      have hjb : j ≠ b := fun h => hne (by simp only [h])
      -- behind the best one there is at most the last one, and that has the number of the best one
      by_cases hlt : j < b
      · refine ⟨j, by omega, ?_⟩
        rw [alternateIdx, if_neg hjb, List.getElem?_eq_getElem hj]
      · have hlast : j = b + 1 := by omega
        refine ⟨b, by omega, ?_⟩
        rw [alternateIdx, if_pos rfl, ← hlast, List.getElem?_eq_getElem hj]

end Sector

/-! ## 6. The candidates of a sector -/

/-- The candidates are the data given, each once, counted and with the least of the rates. -/
structure Counted (given : List (List (BitVec 8) × Nat)) (mData : Sector) : Prop where
  nodup : (mData.map SectorInfo.Data).Nodup
  mem_iff : ∀ data, data ∈ mData.map SectorInfo.Data ↔ data ∈ given.map Prod.fst
  count : ∀ info ∈ mData, info.RecoveryCount = (given.map Prod.fst).count info.Data
  rate_mem : ∀ info ∈ mData, (info.Data, info.ErrorRate) ∈ given
  rate_le : ∀ info ∈ mData, ∀ rate, (info.Data, rate) ∈ given → info.ErrorRate ≤ rate

/-- `GetBestData` returns a candidate with the largest count and, among those, the least rate. -/
def BestReturned (mData : Sector) : Prop :=
  ∃ info ∈ mData, mData.getBestData = .ok info.Data ∧
    ∀ other ∈ mData, other.RecoveryCount < info.RecoveryCount ∨
      other.RecoveryCount = info.RecoveryCount ∧ info.ErrorRate ≤ other.ErrorRate

/-- `GetAlternateData` returns every other candidate exactly once. -/
def OthersReturned (mData : Sector) : Prop :=
  ∃ best others, mData.getBestData = .ok best ∧ mData.alternates = .ok others ∧
    others.Perm ((mData.map SectorInfo.Data).erase best)

/-- What the candidates of a sector should be. A sector without data has no best candidate. -/
def CandidatesRight (given : List (List (BitVec 8) × Nat)) : Prop :=
  Counted given (Sector.collect given) ∧
    (given ≠ [] → BestReturned (Sector.collect given) ∧ OthersReturned (Sector.collect given))

/-- Some data were given more often than others, or as often and with a lower rate. -/
def Beats (given : List (List (BitVec 8) × Nat)) (data data' : List (BitVec 8)) : Prop :=
  (given.map Prod.fst).count data' < (given.map Prod.fst).count data ∨
    (given.map Prod.fst).count data = (given.map Prod.fst).count data' ∧
      ∃ rate, (data, rate) ∈ given ∧ ∀ rate', (data', rate') ∈ given → rate < rate'

/-- Of the different data given, in the order of their first appearance, at most one comes after
    the first of the best. -/
def BestNearEnd (given : List (List (BitVec 8) × Nat)) : Prop :=
  ∀ before data behind, datas given = before ++ data :: behind →
    (∀ data' ∈ before, Beats given data data') → (∀ data' ∈ behind, ¬ Beats given data' data) →
      behind.length ≤ 1

theorem mem_rates {rate : Nat} :
    rate ∈ rates given data ↔ (data, rate) ∈ given := by
  rw [rates, List.mem_map]
  constructor
  · rintro ⟨⟨data', rate'⟩, hg, rfl⟩
    obtain ⟨hmem, heq⟩ := List.mem_filter.mp hg
    obtain rfl : data' = data := of_decide_eq_true heq
    exact hmem
  · exact fun hg => ⟨_, List.mem_filter.mpr ⟨hg, decide_eq_true rfl⟩, rfl⟩

theorem length_rates (data : List (BitVec 8)) :
    (rates given data).length = (given.map Prod.fst).count data := by
  rw [rates, List.length_map, List.count, List.countP_map, List.countP_eq_length_filter]
  refine congrArg List.length (List.filter_congr fun g _ => ?_)
  rw [Function.comp_apply, beq_eq_decide]

theorem infoOf_rate (h : data ∈ datas given) :
    (data, (infoOf given data).ErrorRate) ∈ given ∧
      ∀ rate, (data, rate) ∈ given → (infoOf given data).ErrorRate ≤ rate := by
  obtain ⟨least, hleast⟩ : ∃ least, (rates given data).min? = some least :=
    Option.ne_none_iff_exists'.mp (mt List.min?_eq_none_iff.mp (rates_ne_nil h))
  have herror : (infoOf given data).ErrorRate = least := by rw [infoOf, hleast]; rfl
  obtain ⟨hmem, hle⟩ := List.min?_eq_some_iff.mp hleast
  rw [herror]
  exact ⟨mem_rates.mp hmem, fun rate hrate => hle rate (mem_rates.mpr hrate)⟩

theorem counted_collect (given : List (List (BitVec 8) × Nat)) :
    Counted given (Sector.collect given) := by
  have hdata : (Sector.collect given).map SectorInfo.Data = datas given := by
    rw [collect_eq, map_data_infoOf]
  have hinfo : ∀ info ∈ Sector.collect given, ∃ data ∈ datas given, infoOf given data = info := by
    intro info hmem
    rw [collect_eq] at hmem
    exact List.mem_map.mp hmem
  refine ⟨hdata ▸ nodup_datas, fun data => by rw [hdata]; exact mem_datas, ?_, ?_, ?_⟩
  · rintro info hmem
    obtain ⟨data, hd, rfl⟩ := hinfo info hmem
    exact length_rates data
  · rintro info hmem
    obtain ⟨data, hd, rfl⟩ := hinfo info hmem
    exact (infoOf_rate hd).1
  · rintro info hmem
    obtain ⟨data, hd, rfl⟩ := hinfo info hmem
    exact (infoOf_rate hd).2

theorem betterThan_infoOf {data data' : List (BitVec 8)} (h : data ∈ datas given)
    (h' : data' ∈ datas given) :
    (infoOf given data).betterThan (infoOf given data') = true ↔ Beats given data data' := by
  have hrate : (infoOf given data).ErrorRate < (infoOf given data').ErrorRate ↔
      ∃ rate, (data, rate) ∈ given ∧ ∀ rate', (data', rate') ∈ given → rate < rate' := by
    obtain ⟨hmem, hle⟩ := infoOf_rate h
    obtain ⟨hmem', hle'⟩ := infoOf_rate h'
    constructor
    · exact fun hlt => ⟨_, hmem, fun rate' hrate' => hlt.trans_le (hle' rate' hrate')⟩
    · rintro ⟨rate, hrate, hlt⟩
      exact (hle rate hrate).trans_lt (hlt _ hmem')
  rw [SectorInfo.betterThan_iff, Beats, hrate, ← length_rates data, ← length_rates data']
  rfl

theorem better_iff {i j : Nat} : (Sector.collect given).Better i j ↔
    ∃ data data', (datas given)[i]? = some data ∧ (datas given)[j]? = some data' ∧
      Beats given data data' := by
  rw [Sector.Better, collect_eq]
  constructor
  · rintro ⟨a, b, ha, hb, hab⟩
    rw [List.getElem?_map] at ha hb
    obtain ⟨data, hdata, rfl⟩ := Option.map_eq_some_iff.mp ha
    obtain ⟨data', hdata', rfl⟩ := Option.map_eq_some_iff.mp hb
    exact ⟨data, data', hdata, hdata', (betterThan_infoOf (List.mem_of_getElem? hdata)
      (List.mem_of_getElem? hdata')).mp hab⟩
  · rintro ⟨data, data', hdata, hdata', hbeats⟩
    refine ⟨infoOf given data, infoOf given data', ?_, ?_, (betterThan_infoOf
      (List.mem_of_getElem? hdata) (List.mem_of_getElem? hdata')).mpr hbeats⟩
    · rw [List.getElem?_map, hdata]; rfl
    · rw [List.getElem?_map, hdata']; rfl

theorem length_collect : (Sector.collect given).length = (datas given).length := by
  rw [collect_eq, List.length_map]

theorem collect_ne_nil (h : given ≠ []) : Sector.collect given ≠ [] := by
  obtain ⟨g, rest, rfl⟩ := List.exists_cons_of_ne_nil h
  have hmem : g.1 ∈ datas (g :: rest) := mem_datas.mpr List.mem_cons_self
  rw [collect_eq]
  exact List.ne_nil_of_mem (List.mem_map_of_mem hmem)

/-- Where the data of the condition are, the scan ends. -/
theorem bestIdx_collect {before behind : List (List (BitVec 8))}
    (h : datas given = before ++ data :: behind)
    (hbefore : ∀ data' ∈ before, Beats given data data')
    (hbehind : ∀ data' ∈ behind, ¬ Beats given data' data) :
    (Sector.collect given).bestIdx = before.length := by
  have hat : (datas given)[before.length]? = some data := by simp [h]
  have hne : Sector.collect given ≠ [] := by
    rw [collect_eq]
    exact List.ne_nil_of_mem (List.mem_map_of_mem (List.mem_of_getElem? hat))
  refine (Sector.bestIdx_spec hne).unique ⟨?_, fun i hi => ?_, fun i hi => ?_⟩
  · rw [length_collect, h, List.length_append, List.length_cons]
    omega
  · have hi' : (datas given)[i]? = some before[i] := by simp [h, List.getElem?_append_left, hi]
    exact better_iff.mpr ⟨data, before[i], hat, hi', hbefore _ (List.getElem_mem hi)⟩
  · intro hbetter
    rcases Nat.lt_trichotomy i before.length with hlt | rfl | hlt
    · have hi' : (datas given)[i]? = some before[i] := by simp [h, List.getElem?_append_left, hlt]
      have hback := better_iff.mpr ⟨data, before[i], hat, hi', hbefore _ (List.getElem_mem hlt)⟩
      exact Sector.Better.irrefl i (hbetter.trans hback)
    · exact Sector.Better.irrefl _ hbetter
    · obtain ⟨data', data'', hdata', hdata'', hbeats⟩ := better_iff.mp hbetter
      obtain rfl := Option.some.inj (hat.symm.trans hdata'')
      obtain ⟨k, hk⟩ := Nat.exists_eq_add_of_lt hlt
      have hmem : behind[k]? = some data' := by
        rw [h, List.getElem?_append_right (by omega), hk,
          show before.length + k + 1 - before.length = k + 1 by omega,
          List.getElem?_cons_succ] at hdata'
        exact hdata'
      exact hbehind data' (List.mem_of_getElem? hmem) hbeats

theorem better_getElem {i j : Nat} (hi : i < (datas given).length) (hj : j < (datas given).length) :
    (Sector.collect given).Better i j ↔ Beats given (datas given)[i] (datas given)[j] := by
  rw [better_iff, List.getElem?_eq_getElem hi, List.getElem?_eq_getElem hj]
  constructor
  · rintro ⟨data, data', hdata, hdata', hbeats⟩
    rwa [Option.some.inj hdata, Option.some.inj hdata']
  · exact fun hbeats => ⟨_, _, rfl, rfl, hbeats⟩

theorem bestNearEnd_iff (h : given ≠ []) :
    BestNearEnd given ↔ (datas given).length ≤ (Sector.collect given).bestIdx + 2 := by
  have hspec := Sector.bestIdx_spec (collect_ne_nil h)
  have hb : (Sector.collect given).bestIdx < (datas given).length := by
    rw [← length_collect]
    exact hspec.lt
  constructor
  · intro hnear
    have hle : ((datas given).drop ((Sector.collect given).bestIdx + 1)).length ≤ 1 := by
      refine hnear ((datas given).take _) (datas given)[(Sector.collect given).bestIdx] _
        (by rw [← List.drop_eq_getElem_cons, List.take_append_drop]) ?_ ?_
      · intro data' hmem
        obtain ⟨i, hi, rfl⟩ := List.mem_take_iff_getElem.mp hmem
        exact (better_getElem hb (by omega)).mp (hspec.before i (by omega))
      · intro data' hmem hbeats
        obtain ⟨i, hi, rfl⟩ := List.mem_drop_iff_getElem.mp hmem
        refine hspec.none_better ((Sector.collect given).bestIdx + 1 + i) ?_ ?_
        · rw [length_collect]
          omega
        · exact (better_getElem (by omega) hb).mpr hbeats
    rw [List.length_drop] at hle
    omega
  · rintro hle before data behind heq hbefore hbehind
    rw [bestIdx_collect heq hbefore hbehind, heq, List.length_append, List.length_cons] at hle
    omega

theorem getElem?_collect {i : Nat} (hi : i < (datas given).length) :
    (Sector.collect given)[i]? = some (infoOf given (datas given)[i]) := by
  rw [collect_eq, List.getElem?_map, List.getElem?_eq_getElem hi]
  rfl

theorem getBestData_collect (h : given ≠ []) :
    ∃ hb : (Sector.collect given).bestIdx < (datas given).length,
      (Sector.collect given).getBestData = .ok (datas given)[(Sector.collect given).bestIdx] := by
  have hne := collect_ne_nil h
  have hb : (Sector.collect given).bestIdx < (Sector.collect given).length :=
    (Sector.bestIdx_spec hne).lt
  have hb' : (Sector.collect given).bestIdx < (datas given).length := length_collect ▸ hb
  refine ⟨hb', ?_⟩
  have hvalid : (Sector.collect given).isValid = true := by simp [Sector.isValid, hne]
  rw [Sector.getBestData, if_pos hvalid, Sector.dataAt, getElem?_collect hb']
  rfl

/-- `GetBestData` is right in any case. -/
theorem bestReturned_collect (h : given ≠ []) : BestReturned (Sector.collect given) := by
  have hspec := Sector.bestIdx_spec (collect_ne_nil h)
  obtain ⟨hb, hbest⟩ := getBestData_collect h
  refine ⟨_, List.mem_of_getElem? (getElem?_collect hb), hbest, fun other hother => ?_⟩
  rw [collect_eq] at hother
  obtain ⟨data, hdata, rfl⟩ := List.mem_map.mp hother
  obtain ⟨i, hi, rfl⟩ := List.mem_iff_getElem.mp hdata
  have hnot := mt (better_getElem hi hb).mpr (hspec.none_better i (length_collect ▸ hi))
  rw [← betterThan_infoOf (List.getElem_mem hi) (List.getElem_mem hb),
    SectorInfo.betterThan_iff] at hnot
  omega

theorem othersReturned_collect_iff (h : given ≠ []) :
    OthersReturned (Sector.collect given) ↔ BestNearEnd given := by
  obtain ⟨hb, hbest⟩ := getBestData_collect h
  have hdata : (Sector.collect given).map SectorInfo.Data = datas given := by
    rw [collect_eq, map_data_infoOf]
  have hothers := Sector.alternates_eq (collect_ne_nil h)
  rw [hdata] at hothers
  rw [bestNearEnd_iff h, ← Sector.alternateData_perm_iff nodup_datas hb, OthersReturned, hdata]
  constructor
  · rintro ⟨best, others, hbest', hothers', hperm⟩
    obtain rfl := Except.ok.inj (hbest.symm.trans hbest')
    obtain rfl := Except.ok.inj (hothers.symm.trans hothers')
    exact hperm
  · exact fun hperm => ⟨_, _, hbest, hothers, hperm⟩

/-- **The candidates of a sector are right exactly where at most one comes after the best one.** -/
theorem candidates_right_iff (given : List (List (BitVec 8) × Nat)) :
    CandidatesRight given ↔ BestNearEnd given := by
  by_cases h : given = []
  · subst h
    refine iff_of_true ⟨counted_collect [], fun hne => absurd rfl hne⟩ ?_
    intro before data behind heq
    have hlength := congrArg List.length heq
    rw [List.length_append, List.length_cons] at hlength
    exact absurd hlength (Nat.succ_ne_zero _).symm
  · rw [← othersReturned_collect_iff h]
    constructor
    · exact fun hright => (hright.2 h).2
    · exact fun hothers => ⟨counted_collect given, fun _ => ⟨bestReturned_collect h, hothers⟩⟩

/-- Three candidates, the first of them found twice: the second one is returned twice, and the
    third one not at all. -/
theorem not_candidatesRight : ¬ CandidatesRight [([1], 0), ([1], 0), ([2], 0), ([3], 0)] := by
  rintro ⟨-, hright⟩
  obtain ⟨best, others, hbest, hothers, hperm⟩ := (hright (List.cons_ne_nil _ _)).2
  have hbest' : best = [1] := Except.ok.inj (hbest.symm.trans rfl)
  have hothers' : others = [[2], [2]] := Except.ok.inj (hothers.symm.trans rfl)
  subst hbest' hothers'
  exact absurd hperm (by decide)

end DiskDecode

end CraySim
