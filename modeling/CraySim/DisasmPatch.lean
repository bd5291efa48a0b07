/-
  Subject:   The patch that `cray_disasm -patch` prints for an object file.

  Each parcel of the code is printed with a mask. A relocated field of the code is given by its
  rightmost bit and its length, with bit 0 the leftmost bit of the code; what is in such a field
  differs from copy to copy, and the mask is to leave it out.

  * `codeRange`, `patchRange` -- the parcels that are printed,
  * `maskLoop`, `maskFor`, `patchLoop` -- the masks,
  * `Relocated`, `MaskRight` -- the bits that are to be left out, and a mask that does that,
  * `differs_of_maskRight` -- what such a mask compares,
  * `Hits` -- the entry the loop finds has the relocated bits, mirrored,
  * `masks_iff` -- the masks are right exactly where that is so for each parcel.
-/
import CraySim.AddrStrings
import CraySim.BinPatch
import CraySim.IopBlockChannels
import CraySim.ObjFileRead

namespace CraySim

/-- The address of a parcel. -/
def AddrStrings.CombinedAddr.parcel (a : AddrStrings.CombinedAddr) : BitVec 32 :=
  if a.IsParcelAddr then a.Addr else a.Addr * 4

namespace ObjFile

open AddrStrings (CombinedAddr)
open ByteFile FileStream

/-! ## 1. The parcels -/

/-- The first block with instructions. -/
def codeBlock (obj : Obj) : Option Nat := obj.mBlocks.findIdx? (·.pdtbkc = BlockContent.IX)

/-- The text of that block. -/
def listed (obj : Obj) : Option TxtBlock := (codeBlock obj).bind (obj.mTxtBlocks[·]?)

/-- From the start of the code to its end, where there is code; else as the options say. -/
def codeRange (obj : Obj) (StartAddr EndAddr : CombinedAddr) :
    Except Exn (CombinedAddr × CombinedAddr) :=
  match codeBlock obj with
  | none => .ok (StartAddr, EndAddr)
  | some Idx =>
    match obj.mTxtBlocks[Idx]? with
    | none => .error .undefinedBehaviour
    | some Txt =>
      (Txt.flatten (List.replicate (memorySize obj * 8) 0) 0).map fun (_, size) =>
        (⟨0, false⟩, ⟨BitVec.ofNat 32 (size / 8), false⟩)

/-- The first parcel of the listing and the one behind its last. -/
def patchRange (obj : Obj) (StartAddr EndAddr : CombinedAddr) :
    Except Exn (BitVec 32 × BitVec 32) :=
  if 128 * 1024 * 1024 < memorySize obj then
    .error (.generic "Can't allocate that much memory!" (memorySize obj))
  else
    (codeRange obj StartAddr EndAddr).map fun (StartAddr, EndAddr) =>
      (StartAddr.parcel,
        if EndAddr.parcel = 0 then BitVec.ofNat 32 (memorySize obj * 8 / 2) else EndAddr.parcel)

/-! ## 2. The masks -/

/-- The first bit of a field and the one behind its last, in 32 bits with a sign. -/
def span (RelItem : XRelItem) : Except Exn (Int × Int) :=
  let EndBit := (BitVec.ofNat 32 RelItem.rightmostBitAddress).toInt + 1
  let StartBit := EndBit - RelItem.fieldLengthInBits
  if EndBit < 2 ^ 31 ∧ -2 ^ 31 ≤ StartBit then .ok (StartBit, EndBit) else .error .undefinedBehaviour

/-- `SwapBytes(~(((1 << (EndBit - StartBit)) - 1) << StartBit))`, in 16 bits. -/
def clearBits (StartBit EndBit : Nat) : BitVec 16 :=
  swapBytes16 (~~~ BitVec.ofNat 16 ((1 <<< (EndBit - StartBit) - 1) <<< StartBit))

/-- The mask for a field that has been found, its bits counted from the parcel on. -/
def maskOf (StartBit EndBit : Int) : Except Exn (BitVec 16) :=
  let StartBit := if StartBit < 0 then 0 else StartBit
  let EndBit := if EndBit > 16 then 16 else EndBit
  if StartBit ≤ 15 ∧ EndBit > 0 then
    if StartBit ≤ EndBit then .ok (clearBits StartBit.toNat EndBit.toNat)
    else .error .undefinedBehaviour
  else .error .assertion

/-- The loop over the relocations. -/
def maskLoop (CurAddr : BitVec 32) : List XRelItem → Except Exn (BitVec 16)
  | [] => .ok 0xffff
  | RelItem :: items =>
    (span RelItem).bind fun (StartBit, EndBit) =>
      if StartBit > (CurAddr * 16 + 15).toInt then maskLoop CurAddr items
      else if EndBit ≤ (CurAddr * 16).toInt then maskLoop CurAddr items
      else maskOf (BitVec.ofInt 32 StartBit - CurAddr * 16).toInt
        (BitVec.ofInt 32 EndBit - CurAddr * 16).toInt

/-- The mask of a parcel; the relocations are those of the first block. -/
def maskFor (obj : Obj) (CurAddr : BitVec 32) : Except Exn (BitVec 16) :=
  match obj.mTxtBlocks with
  | [] => .error .undefinedBehaviour
  | Txt :: _ => maskLoop CurAddr Txt.mXRelItems

/-- The loop of the listing: the parcels with their masks. -/
def patchLoop (obj : Obj) (EndAddr CurAddr : BitVec 32) :
    Except Exn (List (BitVec 32 × BitVec 16)) :=
  if CurAddr < EndAddr then
    (maskFor obj CurAddr).bind fun Mask =>
      (patchLoop obj EndAddr (CurAddr + 1)).map ((CurAddr, Mask) :: ·)
  else .ok []
termination_by EndAddr.toNat - CurAddr.toNat
decreasing_by
  bv_omega

/-! ## 3. What they are for -/

/-- A bit of the code in a field. -/
def inField (rightmostBitAddress fieldLengthInBits bit : Nat) : Prop :=
  bit ≤ rightmostBitAddress ∧ rightmostBitAddress < bit + fieldLengthInBits

/-- A bit of the code in some relocated field. -/
def Relocated (obj : Obj) (bit : Nat) : Prop :=
  ∃ t, listed obj = some t ∧
    ((∃ r ∈ t.mRelItems, inField r.rightmostBitAddress r.fieldLengthInBits bit) ∨
      ∃ r ∈ t.mXRelItems, inField r.rightmostBitAddress r.fieldLengthInBits bit)

/-- The mask of a parcel leaves out the bits of it that are relocated; the leftmost bit of a parcel
    is its bit 0. -/
def MaskRight (obj : Obj) (CurAddr : BitVec 32) (Mask : BitVec 16) : Prop :=
  ∀ k < 16, Mask.getLsbD (15 - k) = false ↔ Relocated obj (16 * CurAddr.toNat + k)

/-- A line for every parcel of the listing, with the right mask. -/
def Masks (obj : Obj) (StartAddr EndAddr : CombinedAddr) : Prop :=
  ∀ first last, patchRange obj StartAddr EndAddr = .ok (first, last) →
    ∃ lines, patchLoop obj last first = .ok lines ∧
      lines.map (·.1.toNat) = List.range' first.toNat (last.toNat - first.toNat) ∧
      ∀ line ∈ lines, MaskRight obj line.1 line.2

/-- A line of a patch with the right mask compares the bits that are not relocated. -/
theorem differs_of_maskRight {obj : Obj} {CurAddr : BitVec 32} {Mask : BitVec 16}
    (h : MaskRight obj CurAddr Mask) (Data w : BitVec 16) (mPatch : BinPatch.ValMask) :
    (BinPatch.PatchLine.mk ⟨Data, Mask⟩ mPatch).differs w = false ↔
      ∀ k < 16, ¬ Relocated obj (16 * CurAddr.toNat + k) →
        w.getLsbD (15 - k) = Data.getLsbD (15 - k) := by
  rw [BinPatch.differs_eq_false_iff]
  dsimp only
  constructor
  · intro hsame k hk hfixed
    refine hsame (15 - k) (by omega) ?_
    exact Bool.eq_true_of_not_eq_false fun hfree => hfixed ((h k hk).mp hfree)
  · intro hsame b hb hmask
    have hback : 15 - (15 - b) = b := by omega
    have hw := hsame (15 - b) (by omega) fun hrel => by
      have hfree := (h (15 - b) (by omega)).mpr hrel
      rw [hback, hmask] at hfree
      cases hfree
    rwa [hback] at hw

/-! ## 4. The mask of a field -/

/-- The bit of a parcel on the other side of its byte. -/
def mirror (k : Nat) : Nat := if k < 8 then 7 - k else 23 - k

theorem mirror_lt {k : Nat} (hk : k < 16) : mirror k < 16 := by
  rw [mirror]
  split <;> omega

/-- The bits that are cleared are those of the field, mirrored. -/
theorem getLsbD_clearBits {s e k : Nat} (hk : k < 16) :
    (clearBits s e).getLsbD (15 - k) = false ↔ s ≤ mirror k ∧ mirror k < e := by
  have hat : (if 15 - k < 8 then 15 - k + 8 else 15 - k - 8) = mirror k := by
    rw [mirror]
    split <;> split <;> omega
  have hlt : 15 - k < 16 := by omega
  rw [clearBits, getLsbD_swapBytes16, decide_eq_true hlt, Bool.true_and, hat, BitVec.getLsbD_not,
    decide_eq_true (mirror_lt hk), Bool.true_and, BitVec.getLsbD_ofNat,
    decide_eq_true (mirror_lt hk), Bool.true_and, Nat.testBit_shiftLeft, Nat.one_shiftLeft, Nat.testBit_two_pow_sub_one]
  simp only [Bool.not_eq_eq_eq_not, Bool.not_false, Bool.and_eq_true, decide_eq_true_eq]
  omega

/-- A field that reaches the parcel is cut to it. -/
theorem maskOf_ok {s e : Int} (hs : s ≤ 15) (he : 0 < e) (hle : s ≤ e) :
    ∃ Mask, maskOf s e = .ok Mask ∧
      ∀ k < 16, Mask.getLsbD (15 - k) = false ↔ s ≤ mirror k ∧ mirror k < e := by
  have hstart : (if s < 0 then 0 else s) ≤ 15 := by
    split <;> omega
  have hend : 0 < (if e > 16 then 16 else e) := by
    split <;> omega
  have hcut : (if s < 0 then 0 else s) ≤ (if e > 16 then 16 else e) := by
    split <;> split <;> omega
  refine ⟨_, (if_pos ⟨hstart, hend⟩).trans (if_pos hcut), fun k hk => ?_⟩
  have hmirror := mirror_lt hk
  rw [getLsbD_clearBits hk]
  constructor
  · intro ⟨hlow, hhigh⟩
    constructor
    · split at hlow <;> omega
    · split at hhigh <;> omega
  · intro ⟨hlow, hhigh⟩
    constructor
    · split <;> omega
    · split <;> omega

/-- The first bit of a parcel, in 32 bits with a sign. -/
def pos (CurAddr : BitVec 32) : Int := (CurAddr * 16).toInt

theorem pos_last (CurAddr : BitVec 32) : (CurAddr * 16 + 15).toInt = pos CurAddr + 15 := by
  have h16 : (16 : BitVec 32).toNat = 16 := rfl
  have h15 : (15 : BitVec 32).toNat = 15 := rfl
  rw [pos, BitVec.toInt_eq_toNat_cond, BitVec.toInt_eq_toNat_cond, BitVec.toNat_add,
    BitVec.toNat_mul, h16, h15]
  split <;> split <;> omega

theorem toInt_sub_pos {x : Int} {CurAddr : BitVec 32} (hlow : -2 ^ 31 ≤ x - pos CurAddr)
    (hhigh : x - pos CurAddr < 2 ^ 31) :
    (BitVec.ofInt 32 x - CurAddr * 16).toInt = x - pos CurAddr := by
  rw [BitVec.toInt_sub, BitVec.toInt_ofInt, Int.bmod_sub_bmod, ← pos]
  exact Int.bmod_eq_of_le (by omega) (by omega)

/-- The first bit of a field and the one behind its last. -/
def fieldSpan (r : XRelItem) : Int × Int :=
  let EndBit := (BitVec.ofNat 32 r.rightmostBitAddress).toInt + 1
  (EndBit - r.fieldLengthInBits, EndBit)

/-- A field whose ends have 32 bits. -/
def Fits (r : XRelItem) : Prop := (fieldSpan r).2 < 2 ^ 31 ∧ -2 ^ 31 ≤ (fieldSpan r).1

/-- A field that has a bit of the parcel, or is empty between two of them. -/
def Meets (r : XRelItem) (CurAddr : BitVec 32) : Prop :=
  (fieldSpan r).1 ≤ pos CurAddr + 15 ∧ pos CurAddr < (fieldSpan r).2

/-- The `k`-th bit of the parcel in the field. -/
def Spans (r : XRelItem) (CurAddr : BitVec 32) (k : Nat) : Prop :=
  (fieldSpan r).1 ≤ pos CurAddr + k ∧ pos CurAddr + k < (fieldSpan r).2

theorem length_lt (r : XRelItem) : r.fieldLengthInBits < 64 := by
  rw [XRelItem.fieldLengthInBits, field, getBitsReverse_eq_get _ (by decide)]
  rw [WordField.toNat_get]
  exact Nat.mod_lt _ (by decide)

section mask
variable {r : XRelItem} {items : List XRelItem} {CurAddr : BitVec 32}

theorem span_of_fits (h : Fits r) : span r = .ok (fieldSpan r) := by
  rw [span]
  exact if_pos h

theorem maskLoop_unfit (h : ¬ Fits r) : maskLoop CurAddr (r :: items) = .error .undefinedBehaviour := by
  have hspan : span r = .error .undefinedBehaviour := by
    rw [span]
    exact if_neg h
  rw [maskLoop, hspan]
  rfl

theorem maskLoop_skip (h : Fits r) (hskip : ¬ Meets r CurAddr) :
    maskLoop CurAddr (r :: items) = maskLoop CurAddr items := by
  rw [maskLoop, span_of_fits h]
  simp only [Except.bind]
  rw [pos_last, ← pos]
  split
  · rfl
  · split
    · rfl
    · next hlow hhigh =>
      exact absurd ⟨not_lt.mp hlow, not_le.mp hhigh⟩ hskip

theorem maskLoop_hit (h : Fits r) (hmeets : Meets r CurAddr) :
    ∃ Mask, maskLoop CurAddr (r :: items) = .ok Mask ∧
      ∀ k < 16, Mask.getLsbD (15 - k) = false ↔ Spans r CurAddr (mirror k) := by
  have hlen : (fieldSpan r).2 = (fieldSpan r).1 + r.fieldLengthInBits := by
    rw [fieldSpan]
    omega
  have hlt := length_lt r
  have hspan := span_of_fits h
  obtain ⟨hlow, hhigh⟩ := hmeets
  have hfirst : (BitVec.ofInt 32 (fieldSpan r).1 - CurAddr * 16).toInt =
      (fieldSpan r).1 - pos CurAddr := toInt_sub_pos (by omega) (by omega)
  have hlast : (BitVec.ofInt 32 (fieldSpan r).2 - CurAddr * 16).toInt =
      (fieldSpan r).2 - pos CurAddr := toInt_sub_pos (by omega) (by omega)
  rw [maskLoop, hspan]
  simp only [Except.bind]
  rw [pos_last, hfirst, hlast, ← pos, if_neg (by omega), if_neg (by omega)]
  obtain ⟨Mask, hMask, hbits⟩ := maskOf_ok (s := (fieldSpan r).1 - pos CurAddr)
    (e := (fieldSpan r).2 - pos CurAddr) (by omega) (by omega) (by omega)
  refine ⟨Mask, hMask, fun k hk => (hbits k hk).trans ?_⟩
  rw [Spans]
  constructor
  · intro ⟨hleft, hright⟩
    exact ⟨by omega, by omega⟩
  · intro ⟨hleft, hright⟩
    exact ⟨by omega, by omega⟩

end mask

/-! ## 5. The first field that meets a parcel -/

/-- No field meets the parcel. -/
def Misses (CurAddr : BitVec 32) (items : List XRelItem) : Prop :=
  ∀ r ∈ items, Fits r ∧ ¬ Meets r CurAddr

/-- The parcel has no bit to be left out, and none of the fields meets it; or the first field that
    meets it has, mirrored in each byte, the bits to be left out. -/
def Hits (R : Nat → Prop) (CurAddr : BitVec 32) (items : List XRelItem) : Prop :=
  (Misses CurAddr items ∧ ∀ k < 16, ¬ R k) ∨
    ∃ before r behind, items = before ++ r :: behind ∧ Misses CurAddr before ∧ Fits r ∧
      Meets r CurAddr ∧ ∀ k < 16, R k ↔ Spans r CurAddr (mirror k)

section hits
variable {R : Nat → Prop} {r : XRelItem} {items : List XRelItem} {CurAddr : BitVec 32}

theorem hits_nil : Hits R CurAddr [] ↔ ∀ k < 16, ¬ R k := by
  constructor
  · intro h
    rcases h with ⟨_, hnone⟩ | ⟨before, r, behind, hnil, _⟩
    · exact hnone
    · exact absurd hnil (by simp)
  · intro hnone
    exact Or.inl ⟨fun r hr => absurd hr List.not_mem_nil, hnone⟩

theorem hits_skip (h : Fits r) (hskip : ¬ Meets r CurAddr) :
    Hits R CurAddr (r :: items) ↔ Hits R CurAddr items := by
  constructor
  · intro hhits
    rcases hhits with ⟨hmiss, hnone⟩ | ⟨before, x, behind, hitems, hmiss, hrest⟩
    · exact Or.inl ⟨fun x hx => hmiss x (List.mem_cons_of_mem r hx), hnone⟩
    · cases before with
      | nil =>
        obtain ⟨hx, _⟩ := List.cons.inj hitems
        exact absurd (hx ▸ hrest.2.1) hskip
      | cons y before =>
        obtain ⟨_, hitems⟩ := List.cons.inj hitems
        exact Or.inr ⟨before, x, behind, hitems,
          fun z hz => hmiss z (List.mem_cons_of_mem y hz), hrest⟩
  · intro hhits
    rcases hhits with ⟨hmiss, hnone⟩ | ⟨before, x, behind, hitems, hmiss, hrest⟩
    · refine Or.inl ⟨fun z hz => ?_, hnone⟩
      rcases List.mem_cons.mp hz with rfl | hz
      · exact ⟨h, hskip⟩
      · exact hmiss z hz
    · refine Or.inr ⟨r :: before, x, behind, ?_, fun z hz => ?_, hrest⟩
      · rw [hitems, List.cons_append]
      · rcases List.mem_cons.mp hz with rfl | hz
        · exact ⟨h, hskip⟩
        · exact hmiss z hz

theorem hits_hit (h : Fits r) (hmeets : Meets r CurAddr) :
    Hits R CurAddr (r :: items) ↔ ∀ k < 16, R k ↔ Spans r CurAddr (mirror k) := by
  constructor
  · intro hhits
    rcases hhits with ⟨hmiss, _⟩ | ⟨before, x, behind, hitems, hmiss, _, _, hbits⟩
    · exact absurd hmeets (hmiss r List.mem_cons_self).2
    · cases before with
      | nil =>
        obtain ⟨hx, _⟩ := List.cons.inj hitems
        exact hx ▸ hbits
      | cons y before =>
        obtain ⟨hy, _⟩ := List.cons.inj hitems
        exact absurd (hy ▸ hmeets) (hmiss y List.mem_cons_self).2
  · intro hbits
    exact Or.inr ⟨[], r, items, rfl, fun z hz => absurd hz List.not_mem_nil, h, hmeets, hbits⟩

theorem not_hits (h : ¬ Fits r) : ¬ Hits R CurAddr (r :: items) := by
  intro hhits
  rcases hhits with ⟨hmiss, _⟩ | ⟨before, x, behind, hitems, hmiss, hx, _⟩
  · exact h (hmiss r List.mem_cons_self).1
  · cases before with
    | nil =>
      obtain ⟨hr, _⟩ := List.cons.inj hitems
      exact h (hr ▸ hx)
    | cons y before =>
      obtain ⟨hr, _⟩ := List.cons.inj hitems
      exact h (hr ▸ (hmiss y List.mem_cons_self).1)

/-- The mask leaves out the right bits exactly where the first field that is met has them,
    mirrored. -/
theorem maskLoop_iff : (∃ Mask, maskLoop CurAddr items = .ok Mask ∧
      ∀ k < 16, Mask.getLsbD (15 - k) = false ↔ R k) ↔ Hits R CurAddr items := by
  induction items with
  | nil =>
    have hall : ∀ k < 16, (0xffff : BitVec 16).getLsbD (15 - k) = true := by decide
    rw [hits_nil]
    constructor
    · intro ⟨Mask, hMask, hbits⟩ k hk hR
      have hfree := (hbits k hk).mpr hR
      rw [← Except.ok.inj hMask, hall k hk] at hfree
      cases hfree
    · intro hnone
      refine ⟨0xffff, rfl, fun k hk => ?_⟩
      rw [hall k hk]
      exact ⟨fun h => absurd h.symm Bool.false_ne_true, fun h => absurd h (hnone k hk)⟩
  | cons r items ih =>
    by_cases hfits : Fits r
    · by_cases hmeets : Meets r CurAddr
      · rw [hits_hit hfits hmeets]
        obtain ⟨Mask, hMask, hbits⟩ := @maskLoop_hit r items CurAddr hfits hmeets
        rw [hMask]
        constructor
        · intro ⟨Mask', hMask', hbits'⟩ k hk
          rw [← hbits' k hk, ← Except.ok.inj hMask']
          exact hbits k hk
        · intro hR
          exact ⟨Mask, rfl, fun k hk => (hbits k hk).trans (hR k hk).symm⟩
      · rw [maskLoop_skip hfits hmeets, hits_skip hfits hmeets]
        exact ih
    · rw [maskLoop_unfit hfits]
      constructor
      · intro ⟨Mask, hMask, _⟩
        cases hMask
      · intro hhits
        exact absurd hhits (not_hits hfits)

end hits

/-- What is to be left out of two halves of a parcel stays where it is: a whole parcel, a whole byte,
    or bits that lie in the middle of a byte. -/
theorem mirror_iff {s e : Nat} (hse : s < e) (he : e ≤ 16) :
    (∀ k < 16, (s ≤ k ∧ k < e) ↔ s ≤ mirror k ∧ mirror k < e) ↔
      s + e = 16 ∧ s = 0 ∨ s + e = 8 ∨ s + e = 24 ∧ 8 ≤ s := by
  constructor
  · intro h
    have hfirst := (h s (by omega)).mp ⟨Nat.le_refl s, hse⟩
    have hlast := (h (e - 1) (by omega)).mp ⟨by omega, by omega⟩
    have hleft := h 7 (by decide)
    have hright := h 8 (by decide)
    have h7 : mirror 7 = 0 := rfl
    have h8 : mirror 8 = 15 := rfl
    rw [h7] at hleft
    rw [h8] at hright
    rw [mirror] at hfirst hlast
    split at hfirst <;> split at hlast <;> omega
  · intro h k hk
    rw [mirror]
    split <;> omega

/-- A parcel with bits of one field only has the right mask where these are the whole parcel, one of
    its bytes, or bits in the middle of a byte. -/
theorem hits_alone_iff {R : Nat → Prop} {r : XRelItem} {items : List XRelItem} {CurAddr : BitVec 32}
    {s e : Nat} (hfits : Fits r) (hse : s < e) (he : e ≤ 16)
    (hspans : ∀ k < 16, Spans r CurAddr k ↔ s ≤ k ∧ k < e)
    (halone : ∀ k < 16, R k ↔ Spans r CurAddr k) :
    Hits R CurAddr (r :: items) ↔ s + e = 16 ∧ s = 0 ∨ s + e = 8 ∨ s + e = 24 ∧ 8 ≤ s := by
  have hs := (hspans s (by omega)).mpr ⟨Nat.le_refl s, hse⟩
  have hmeets : Meets r CurAddr := by
    obtain ⟨hleft, hright⟩ := hs
    exact ⟨by omega, by omega⟩
  rw [hits_hit hfits hmeets, ← mirror_iff hse he]
  constructor
  · intro h k hk
    rw [← hspans k hk, ← hspans _ (mirror_lt hk), ← halone k hk]
    exact h k hk
  · intro h k hk
    rw [halone k hk, hspans k hk, hspans _ (mirror_lt hk)]
    exact h k hk

/-! ## 6. The listing -/

theorem patchLoop_iff {obj : Obj} {last first : BitVec 32} :
    (∃ lines, patchLoop obj last first = .ok lines ∧
      lines.map (·.1.toNat) = List.range' first.toNat (last.toNat - first.toNat) ∧
      ∀ line ∈ lines, MaskRight obj line.1 line.2) ↔
    ∀ c, first ≤ c → c < last → ∃ Mask, maskFor obj c = .ok Mask ∧ MaskRight obj c Mask := by
  induction hn : last.toNat - first.toNat generalizing first with
  | zero =>
    have hend : ¬ first < last := by bv_omega
    rw [patchLoop, if_neg hend]
    constructor
    · intro _ c hfirst hlast
      bv_omega
    · intro _
      exact ⟨[], rfl, rfl, fun line hline => absurd hline List.not_mem_nil⟩
  | succ n ih =>
    have hless : first < last := by bv_omega
    have hnext : (first + 1).toNat = first.toNat + 1 := by bv_omega
    have hrest := @ih (first + 1) (by omega)
    rw [patchLoop, if_pos hless, List.range'_succ]
    constructor
    · intro ⟨lines, hlines, hparcels, hright⟩ c hfirst hlast
      obtain ⟨Mask, hMask, hlines⟩ := EventRun.exists_of_bind hlines
      obtain ⟨tail, htail, rfl⟩ := EventRun.map_eq_ok_iff.mp hlines
      rw [List.map_cons] at hparcels
      by_cases hc : c = first
      · exact ⟨Mask, hc ▸ hMask, hc ▸ hright _ List.mem_cons_self⟩
      · refine hrest.mp ⟨tail, htail, ?_, fun line hline => hright line ?_⟩ c (by bv_omega) hlast
        · rw [hnext]
          exact (List.cons.inj hparcels).2
        · exact List.mem_cons_of_mem _ hline
    · intro hall
      obtain ⟨Mask, hMask, hright⟩ := hall first (BitVec.le_refl first) hless
      obtain ⟨tail, htail, hparcels, htailright⟩ :=
        hrest.mpr fun c hfirst hlast => hall c (by bv_omega) hlast
      refine ⟨(first, Mask) :: tail, ?_, ?_, fun line hline => ?_⟩
      · rw [hMask]
        exact EventRun.map_eq_ok_iff.mpr ⟨tail, htail, rfl⟩
      · rw [List.map_cons, hparcels, hnext]
      · rcases List.mem_cons.mp hline with rfl | hline
        · exact hright
        · exact htailright line hline

/-- The masks of the listing are right exactly where each parcel is hit by the first field of the
    first block that meets it as the fields of the code say. -/
theorem masks_iff (obj : Obj) (StartAddr EndAddr : CombinedAddr) :
    Masks obj StartAddr EndAddr ↔
      ∀ first last, patchRange obj StartAddr EndAddr = .ok (first, last) →
        ∀ c, first ≤ c → c < last → ∃ Txt behind, obj.mTxtBlocks = Txt :: behind ∧
          Hits (fun k => Relocated obj (16 * c.toNat + k)) c Txt.mXRelItems := by
  have hparcel : ∀ c, (∃ Mask, maskFor obj c = .ok Mask ∧ MaskRight obj c Mask) ↔
      ∃ Txt behind, obj.mTxtBlocks = Txt :: behind ∧
        Hits (fun k => Relocated obj (16 * c.toNat + k)) c Txt.mXRelItems := by
    intro c
    rw [maskFor]
    cases obj.mTxtBlocks with
    | nil =>
      constructor
      · intro ⟨Mask, hMask, _⟩
        cases hMask
      · intro ⟨Txt, behind, hnil, _⟩
        cases hnil
    | cons Txt behind =>
      constructor
      · intro hmask
        exact ⟨Txt, behind, rfl, maskLoop_iff.mp hmask⟩
      · intro ⟨Txt', behind', hcons, hhits⟩
        obtain ⟨hTxt, _⟩ := List.cons.inj hcons
        exact maskLoop_iff.mpr (hTxt ▸ hhits)
  constructor
  · intro hmasks first last hrange c hfirst hlast
    exact (hparcel c).mp (patchLoop_iff.mp (hmasks first last hrange) c hfirst hlast)
  · intro hhits first last hrange
    exact patchLoop_iff.mpr fun c hfirst hlast =>
      (hparcel c).mpr (hhits first last hrange c hfirst hlast)

/-! ## 7. An object file -/

/-- A block of instructions with one word, and a field of ten bits at the end of its first parcel. -/
def oneField : List (BitVec 8) :=
  [TableType.PDT <<< 57, 10 <<< 48 ||| 1 <<< 32, 0, 0, 0, 0, 0, 0, 0, 0,
    BlockContent.IX <<< 57 ||| 1,
    TableType.TXT <<< 57 ||| 4, 0, 1, 0,
    TableType.XRL <<< 57 ||| 3, 10 <<< 3, 15,
    TableType.MTT <<< 57, 0].flatMap (bytesBE 8)

/-- What is read from it. -/
def oneFieldObj : Obj where
  mBlocks := [⟨[BitVec.ofNat 64 (1 <<< 57 ||| 1)], [], 8⟩]
  mEntries := []
  mExterns := []
  mTxtBlocks := [⟨[⟨[0, 1], [0]⟩], [], [⟨[80, 15]⟩]⟩]

theorem readBlock_oneField : TxtBlock.read ⟨[BitVec.ofNat 64 (1 <<< 57 ||| 1)], [], 8⟩
    (ready oneField 88) =
      .ok (⟨[⟨[0, 1], [0]⟩], [], [⟨[80, 15]⟩]⟩, ready oneField 144) := by
  have hheader : HdrDesc.read (ready oneField 88) =
      (⟨[BitVec.ofNat 64 (14 <<< 57 ||| 4)]⟩, ready oneField 96) := by
    rfl
  have htxt : readArea TxtItem.container 4 1 (ready oneField 96) =
      ([⟨[0, 1], [0]⟩], 4, ready oneField 120) := readArea_one (by decide) (by rfl) (by rfl)
  have hxrl : HdrDesc.read (ready oneField 120) =
      (⟨[BitVec.ofNat 64 (12 <<< 57 ||| 3)]⟩, ready oneField 128) := by
    rfl
  have hrels : readArea XRelItem.container 3 1 (ready oneField 128) =
      ([⟨[80, 15]⟩], 3, ready oneField 144) := readArea_one (by decide) (by rfl) (by rfl)
  have hnext : HdrDesc.read (ready oneField 144) =
      (⟨[BitVec.ofNat 64 (8 <<< 57)]⟩, ready oneField 152) := by
    rfl
  rw [TxtBlock.read, if_pos (by rfl), hheader]
  dsimp only
  rw [readTxt_next (by decide) (by rfl) (by rfl) htxt hxrl, readTxt_last (by decide)]
  dsimp only [Except.bind]
  rw [if_neg (by decide), readRels_next (by rfl) (by rfl) hrels hnext, readRels_last (by decide) (by decide)]
  rfl

theorem readTables_oneField : readTables (ready oneField 0) =
    .ok (oneFieldObj, ready oneField 144) := by
  have hheader : HdrDesc.read (ready oneField 0) =
      (⟨[BitVec.ofNat 64 (15 <<< 57)]⟩, ready oneField 8) := by
    rfl
  have htable : ProgDescTable.read (ready oneField 8) =
      .ok (⟨BitVec.ofNat 64 (10 <<< 48 ||| 1 <<< 32) :: List.replicate 8 0, [], [], []⟩,
        ready oneField 80) := by
    rfl
  have hblocks : readArea (BlockDesc.container 72) 1 0 (ready oneField 80) =
      ([⟨[BitVec.ofNat 64 (1 <<< 57 ||| 1)], [], 8⟩], 1, ready oneField 88) :=
    readArea_one (by decide) (by rfl) (by rfl)
  rw [readTables, hheader]
  dsimp only
  rw [if_neg (by decide), htable]
  have hsizes : ∀ ws : List CInt, ws = BitVec.ofNat 64 (10 <<< 48 ||| 1 <<< 32) :: List.replicate 8 0 →
      field ws 16 16 = 1 ∧ field ws 32 16 = 0 ∧ field ws 48 16 = 0 := by
    intro ws hws
    rw [hws]
    decide
  obtain ⟨hblsz, hensz, hexsz⟩ := hsizes _ rfl
  have htell : ∀ n, (ready oneField n).tell = ((n : Int), ready oneField n) := fun _ => rfl
  have hbase : BitVec.ofInt 64 ((80 : Nat) : Int) - 8 = 72 := by decide
  dsimp only [Except.bind]
  rw [ProgDescTable.pdtblsz, ProgDescTable.pdtensz, ProgDescTable.pdtexsz, hblsz, hensz, hexsz,
    htell, hbase, hblocks]
  simp only [readArea_none]
  rw [htell]
  simp only [readBlocks, readBlock_oneField, Except.bind]
  rfl

theorem read_oneField : ObjFile.read 1 (ready oneField 0) = some (.ok oneFieldObj) := by
  have hlast : skipRound (ready oneField 144) =
      .inr (⟨[BitVec.ofNat 64 (8 <<< 57)]⟩, ready oneField 152) := by
    rfl
  rw [ObjFile.read, readTables_oneField]
  dsimp only
  rw [DoWhile.loop_inr hlast]
  rfl

theorem not_relocated : ¬ Relocated oneFieldObj 0 := by
  intro ⟨t, ht, hfield⟩
  have htext : t = ⟨[⟨[0, 1], [0]⟩], [], [⟨[80, 15]⟩]⟩ := (Option.some.inj ht).symm
  subst htext
  rcases hfield with ⟨r, hr, _⟩ | ⟨r, hr, _, hin⟩
  · exact absurd hr List.not_mem_nil
  · rw [List.mem_singleton.mp hr] at hin
    exact absurd hin (by decide)

/-- The bits in front of the field are left out, and not its own. -/
theorem not_masks : ObjFile.read 1 (ready oneField 0) = some (.ok oneFieldObj) ∧
    ¬ Masks oneFieldObj ⟨0, false⟩ ⟨0, false⟩ := by
  refine ⟨read_oneField, fun hmasks => ?_⟩
  have hrange : patchRange oneFieldObj ⟨0, false⟩ ⟨0, false⟩ = .ok (0, 4) := by
    rfl
  obtain ⟨Mask, hMask, hright⟩ :=
    patchLoop_iff.mp (hmasks 0 4 hrange) 0 (by decide) (by decide)
  have hcode : maskFor oneFieldObj 0 = .ok 0x3f00 := by
    rfl
  have hbit := hright 0 (by decide)
  rw [← Except.ok.inj (hcode.symm.trans hMask)] at hbit
  exact not_relocated (hbit.mp (by decide))

end ObjFile

end CraySim
