/-
  Subject:   Which headers are recognised.

  The header check of `Extract` hands `cSyncSize + cHeaderSize` to `Validate` as the end of the
  range, though `cHeaderSize` counts the synchronisation mark already; the data area is checked up
  to `cSectorSizeInBits`, without adding it. So up to nine bits behind the CRC are taken for a part
  of the CRC, as many as were decoded.

  * `DecodesHeader` -- a header with whatever behind it,
  * `headerBits`, `crcBits`, `extraBits` -- its parts,
  * `HeaderMatches`, `headerNumbers` -- the CRC of the header, and what it says,
  * `readHeader_eq_some_iff` -- the check, said of the parts,
  * `headerCheck_right_iff` -- where it depends on the header alone.
-/
import CraySim.DiskDecodeCrc

open Polynomial

namespace CraySim

namespace DiskDecode

/-! ## 1. A header -/

/-- What is decoded behind a synchronisation pattern for a header. -/
def headerData (aRuns : List (BitVec 8)) (headerStart : Nat)
    (aPulseCategorizer : PulseCategorizer) : List Bit :=
  (decode aRuns headerStart (headerStart + cHeaderSize) aPulseCategorizer).Data

/-- The synchronisation mark, a header and a CRC, and maybe more. -/
structure DecodesHeader (data : List Bit) : Prop where
  room : cHeaderSize ≤ data.length
  mark : binInt data 0 cSyncSize = 0xf0

/-- The bits of the header. -/
def headerBits (data : List Bit) : List Bool :=
  ((ones data).take (cSyncSize + cHeaderDataSize)).drop cSyncSize

/-- The bits of its CRC. -/
def crcBits (data : List Bit) : List Bool :=
  ((ones data).take cHeaderSize).drop (cSyncSize + cHeaderDataSize)

/-- The bits behind it that are within the range of the check. -/
def extraBits (data : List Bit) : List Bool :=
  ((ones data).take (cSyncSize + cHeaderSize)).drop cHeaderSize

/-- The CRC is that of the header. -/
def HeaderMatches (data : List Bit) : Prop :=
  crcGenerator ∣ Crc.bitsPoly (headerBits data) * X ^ 32 + Crc.bitsPoly (crcBits data)

/-- The numbers in the header. -/
def headerNumbers (data : List Bit) : Header :=
  let field := fun ofs size => (binInt data (cSyncSize + ofs) (cSyncSize + ofs + size)).toNat
  { track := field cHeaderTrackOfs cHeaderTrackSize
    head := field cHeaderHeadOfs cHeaderHeadSize
    sector := field cHeaderSectorOfs cHeaderSectorSize }

/-- The header check is about the header: it accepts those whose CRC is right. -/
def HeaderCheckRight (aRuns : List (BitVec 8)) (headerStart : Nat)
    (aPulseCategorizer : PulseCategorizer) : Prop :=
  (readHeader aRuns headerStart aPulseCategorizer).isSome = true ↔
    HeaderMatches (headerData aRuns headerStart aPulseCategorizer)

variable {data : List Bit}

/-- The CRC that was read is the one of the header. -/
theorem headerMatches_iff (h : cHeaderSize ≤ data.length) :
    HeaderMatches data ↔ Crc.sumBack polynom (headerBits data) =
      (binInt data (cSyncSize + cHeaderDataSize) cHeaderSize).setWidth 32 := by
  have hlength : ((data.take cHeaderSize).drop (cSyncSize + cHeaderDataSize)).length = 32 := by
    rw [List.length_drop, List.length_take, Nat.min_eq_left h]
    rfl
  rw [Crc.sumBack_eq_iff, binInt_eq, regPoly_number hlength, generator_polynom, HeaderMatches,
    crcBits, ones_cut]

/-! ## 2. The check -/

theorem readHeader_eq_some_iff {aRuns : List (BitVec 8)} {headerStart : Nat}
    {aPulseCategorizer : PulseCategorizer} {header : Header} :
    readHeader aRuns headerStart aPulseCategorizer = some header ↔
      DecodesHeader (headerData aRuns headerStart aPulseCategorizer) ∧
        validate (headerData aRuns headerStart aPulseCategorizer) cSyncSize
          (cSyncSize + cHeaderSize) = true ∧
        headerNumbers (headerData aRuns headerStart aPulseCategorizer) = header := by
  rw [readHeader]
  dsimp only
  rw [← headerData]
  generalize headerData aRuns headerStart aPulseCategorizer = data
  constructor
  · intro h
    split at h
    · cases h
    · rename_i hgood
      obtain ⟨hroom, hmark⟩ := not_or.mp hgood
      split at h
      · cases h
      · rename_i hvalid
        exact ⟨⟨Nat.not_lt.mp hroom, not_not.mp hmark⟩, by simpa using hvalid, Option.some.inj h⟩
  · intro h
    obtain ⟨hdecodes, hvalid, rfl⟩ := h
    rw [if_neg (not_or.mpr ⟨Nat.not_lt.mpr hdecodes.room, not_not.mpr hdecodes.mark⟩), hvalid]
    rfl

theorem readHeader_isSome_iff {aRuns : List (BitVec 8)} {headerStart : Nat}
    {aPulseCategorizer : PulseCategorizer}
    (h : DecodesHeader (headerData aRuns headerStart aPulseCategorizer)) :
    (readHeader aRuns headerStart aPulseCategorizer).isSome = true ↔
      validate (headerData aRuns headerStart aPulseCategorizer) cSyncSize
        (cSyncSize + cHeaderSize) = true := by
  rw [Option.isSome_iff_exists]
  constructor
  · intro hsome
    obtain ⟨header, hread⟩ := hsome
    exact (readHeader_eq_some_iff.mp hread).2.1
  · intro hvalid
    exact ⟨_, readHeader_eq_some_iff.mpr ⟨h, hvalid, rfl⟩⟩

/-- The bits of the range are those of the header, its CRC and the bits behind them. -/
theorem rangeBits_eq (data : List Bit) :
    ((ones data).take (min (cSyncSize + cHeaderSize) data.length)).drop cSyncSize =
      headerBits data ++ crcBits data ++ extraBits data := by
  have hclamp : (ones data).take (min (cSyncSize + cHeaderSize) data.length) =
      (ones data).take (cSyncSize + cHeaderSize) := by
    rw [← length_ones data, ← List.take_take, List.take_length]
  rw [hclamp, drop_take_append _ (by decide : cSyncSize ≤ cHeaderSize) (by decide),
    drop_take_append _ (by decide : cSyncSize ≤ cSyncSize + cHeaderDataSize) (by decide),
    headerBits, crcBits, extraBits]

/-- **The check divides the header, its CRC and the bits behind them.** -/
theorem validate_header_iff (h : cHeaderSize ≤ data.length) :
    validate data cSyncSize (cSyncSize + cHeaderSize) = true ↔
      crcGenerator ∣ (Crc.bitsPoly (headerBits data) * X ^ 32 + Crc.bitsPoly (crcBits data)) *
        X ^ (extraBits data).length + Crc.bitsPoly (extraBits data) := by
  have hrange : GoodRange data cSyncSize (cSyncSize + cHeaderSize) := by
    refine ⟨by decide, ?_⟩
    have hsize : cHeaderSize = 73 := rfl
    have hsync : cSyncSize = 9 := rfl
    omega
  have hcrc : (crcBits data).length = 32 := by
    rw [crcBits, List.length_drop, List.length_take, length_ones, Nat.min_eq_left h]
    rfl
  rw [hrange.validate_eq_true_iff, hrange.rangePoly, rangeBits_eq, Crc.bitsPoly_append,
    Crc.bitsPoly_append, hcrc]

theorem validate_header_of_zeros (h : cHeaderSize ≤ data.length)
    (hzeros : ∀ b ∈ extraBits data, b = false) :
    validate data cSyncSize (cSyncSize + cHeaderSize) = true ↔ HeaderMatches data := by
  rw [validate_header_iff h, Crc.bitsPoly_eq_zero_iff.mpr hzeros, add_zero, ← generator_polynom,
    Crc.dvd_mul_X_pow_iff polynom (by decide), generator_polynom]
  rfl

/-- A one behind the CRC of a header is taken for an error in it. -/
theorem validate_header_of_one (h : cHeaderSize ≤ data.length)
    (hone : ¬ ∀ b ∈ extraBits data, b = false) (hmatches : HeaderMatches data) :
    validate data cSyncSize (cSyncSize + cHeaderSize) = false := by
  rw [← Bool.not_eq_true, validate_header_iff h]
  intro hdvd
  have hextra : Crc.generator polynom ∣ Crc.bitsPoly (extraBits data) := by
    rw [generator_polynom]
    exact (dvd_add_right (dvd_mul_of_dvd_left hmatches _)).mp hdvd
  have hlength : (extraBits data).length ≤ 32 := by
    rw [extraBits, List.length_drop, List.length_take]
    have hsize : cHeaderSize = 73 := rfl
    have hsync : cSyncSize = 9 := rfl
    omega
  have hdegree : (Crc.bitsPoly (extraBits data)).degree < (32 : Nat) :=
    (Crc.degree_bitsPoly_lt _).trans_le (Nat.cast_le.mpr hlength)
  exact hone (Crc.bitsPoly_eq_zero_iff.mp (Crc.eq_zero_of_dvd polynom hdegree hextra))

/-- Of the headers that the check accepts, those have the right CRC that zeros follow. -/
theorem headerMatches_iff_zeros (h : cHeaderSize ≤ data.length)
    (hvalid : validate data cSyncSize (cSyncSize + cHeaderSize) = true) :
    HeaderMatches data ↔ ∀ b ∈ extraBits data, b = false := by
  constructor
  · intro hmatches
    by_contra hone
    rw [validate_header_of_one h hone hmatches] at hvalid
    exact Bool.false_ne_true hvalid
  · exact fun hzeros => (validate_header_of_zeros h hzeros).mp hvalid

/-- **The header check depends on the header alone where the bits behind its CRC are zeros; else
    where neither the header nor the header with these bits is divided by the generator.** -/
theorem headerCheck_right_iff {aRuns : List (BitVec 8)} {headerStart : Nat}
    {aPulseCategorizer : PulseCategorizer}
    (h : DecodesHeader (headerData aRuns headerStart aPulseCategorizer)) :
    HeaderCheckRight aRuns headerStart aPulseCategorizer ↔
      (∀ b ∈ extraBits (headerData aRuns headerStart aPulseCategorizer), b = false) ∨
        ¬ HeaderMatches (headerData aRuns headerStart aPulseCategorizer) ∧
          ¬ crcGenerator ∣ Crc.bitsPoly (headerBits (headerData aRuns headerStart aPulseCategorizer) ++
            crcBits (headerData aRuns headerStart aPulseCategorizer) ++
              extraBits (headerData aRuns headerStart aPulseCategorizer)) := by
  rw [HeaderCheckRight, readHeader_isSome_iff h]
  generalize headerData aRuns headerStart aPulseCategorizer = data at h ⊢
  have hcrc : (crcBits data).length = 32 := by
    rw [crcBits, List.length_drop, List.length_take, length_ones, Nat.min_eq_left h.room]
    rfl
  by_cases hzeros : ∀ b ∈ extraBits data, b = false
  · exact iff_of_true (validate_header_of_zeros h.room hzeros) (.inl hzeros)
  · rw [or_iff_right hzeros, Crc.bitsPoly_append, Crc.bitsPoly_append, hcrc,
      ← validate_header_iff h.room]
    constructor
    · intro hright
      have hno : ¬ HeaderMatches data := fun hmatches => by
        have haccepted := hright.mpr hmatches
        rw [validate_header_of_one h.room hzeros hmatches] at haccepted
        exact Bool.false_ne_true haccepted
      exact ⟨hno, mt hright.mp hno⟩
    · rintro ⟨hno, hrejected⟩
      exact iff_of_false hrejected hno

/-! ## 3. A header that is not recognised -/

/-- Pulses of 0 cells in a row. -/
def zeroRuns (n : Nat) : List (BitVec 8) := List.replicate n 8

/-- The header of sector 0 of head 0 and track 1 with its CRC, and behind it, after some zeros, a
    one. -/
def followedHeader : List (BitVec 8) :=
  zeroRuns 60 ++ [13, 8, 8, 8, 13] ++ zeroRuns 17 ++ [13, 13] ++ zeroRuns 15 ++
    [13, 13, 13, 8, 13] ++ zeroRuns 14 ++ [13, 13, 8, 13, 13] ++ zeroRuns 4 ++ [13, 13] ++
    zeroRuns 20

theorem followedHeader_decodes : DecodesHeader (headerData followedHeader 60 cStrictCategorizer) :=
  ⟨by decide, by decide⟩

theorem headerCheck_right_iff_followed :
    HeaderCheckRight followedHeader 60 cStrictCategorizer ↔
      (∀ b ∈ extraBits (headerData followedHeader 60 cStrictCategorizer), b = false) ∨
        ¬ HeaderMatches (headerData followedHeader 60 cStrictCategorizer) ∧
          ¬ crcGenerator ∣ Crc.bitsPoly
            (headerBits (headerData followedHeader 60 cStrictCategorizer) ++
              crcBits (headerData followedHeader 60 cStrictCategorizer) ++
                extraBits (headerData followedHeader 60 cStrictCategorizer)) :=
  headerCheck_right_iff followedHeader_decodes

/-- The CRC of that header is right, and it is rejected. -/
theorem not_headerCheckRight :
    syncScan followedHeader 50 0 cStrictCategorizer = 60 ∧
      ¬ HeaderCheckRight followedHeader 60 cStrictCategorizer := by
  refine ⟨by decide, fun hright => ?_⟩
  have hmatches : HeaderMatches (headerData followedHeader 60 cStrictCategorizer) :=
    (headerMatches_iff followedHeader_decodes.room).mpr (by decide +kernel)
  have hrejected : readHeader followedHeader 60 cStrictCategorizer = none := by decide +kernel
  have haccepted := hright.mpr hmatches
  rw [hrejected] at haccepted
  exact Bool.false_ne_true haccepted

end DiskDecode

end CraySim
