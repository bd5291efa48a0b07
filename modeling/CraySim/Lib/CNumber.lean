/-
  Subject:   Numbers in strings of C.

  An integer constant is decimal, octal behind a 0, or hexadecimal behind 0x. The functions of the C
  library skip white space, take the longest number with a sign or without, and say where it ends.

  * `Constant`, `Number` -- the grammar,
  * `scan` -- the longest number, and what follows it,
  * `scan_iff` -- `scan` finds the numbers of the grammar,
  * `strtoul`, `strtoll` -- with base 0, in 64 bits.
-/
import Mathlib.Data.List.TakeWhile
import Mathlib.Data.Nat.Digits.Lemmas

namespace CNumber

/-! ## 1. Characters -/

def isSpace (c : BitVec 8) : Bool := c = 0x20 || (9 ≤ c.toNat && c.toNat ≤ 13)

/-- The value of a digit, of any base; too large for every base where it is none. -/
def digitValue (c : BitVec 8) : Nat :=
  if 0x30 ≤ c.toNat ∧ c.toNat ≤ 0x39 then c.toNat - 0x30
  else if 0x61 ≤ c.toNat ∧ c.toNat ≤ 0x7a then c.toNat - 0x57
  else if 0x41 ≤ c.toNat ∧ c.toNat ≤ 0x5a then c.toNat - 0x37
  else 255

def isDigit (base : Nat) (c : BitVec 8) : Bool := digitValue c < base

/-- The x of 0x. -/
def isX (c : BitVec 8) : Bool := c = 0x78 || c = 0x58

/-- The value of digits. -/
def valueOf (base : Nat) (ds : List (BitVec 8)) : Nat :=
  ds.foldl (fun v c => base * v + digitValue c) 0

/-- The string of C in an array: it ends in front of the first zero. -/
def cString (cs : List (BitVec 8)) : List (BitVec 8) := cs.takeWhile (· ≠ 0)

theorem cString_of_ne_zero {cs : List (BitVec 8)} (h : ∀ c ∈ cs, c ≠ 0) : cString cs = cs := by
  rw [cString, List.takeWhile_eq_self_iff]
  exact fun c hc => decide_eq_true (h c hc)

/-! ## 2. Grammar -/

/-- An integer constant without suffix, and its value. -/
inductive Constant : List (BitVec 8) → Nat → Prop where
  | decimal {ds} : ds ≠ [] → ds.head? ≠ some 0x30 → (∀ c ∈ ds, isDigit 10 c = true) →
      Constant ds (valueOf 10 ds)
  | octal {ds} : (∀ c ∈ ds, isDigit 8 c = true) → Constant (0x30 :: ds) (valueOf 8 (0x30 :: ds))
  | hexadecimal {x ds} : isX x = true → ds ≠ [] → (∀ c ∈ ds, isDigit 16 c = true) →
      Constant (0x30 :: x :: ds) (valueOf 16 ds)

/-- A constant, and a sign in front of it or none. -/
inductive Number : List (BitVec 8) → Int → Prop where
  | plain {cs n} : Constant cs n → Number cs n
  | plus {cs n} : Constant cs n → Number (0x2b :: cs) n
  | minus {cs n} : Constant cs n → Number (0x2d :: cs) (-(n : Int))

/-! ## 3. Reading -/

/-- The digits in front, if there are any, and what follows them. -/
def scanDigits (base : Nat) (cs : List (BitVec 8)) : Option (Nat × List (BitVec 8)) :=
  if cs.takeWhile (isDigit base) = [] then none
  else some (valueOf base (cs.takeWhile (isDigit base)), cs.dropWhile (isDigit base))

/-- 0x and a digit. -/
def isHexPrefix : List (BitVec 8) → Bool
  | c :: x :: d :: _ => c = 0x30 && isX x && isDigit 16 d
  | _ => false

def scanConstant (cs : List (BitVec 8)) : Option (Nat × List (BitVec 8)) :=
  if isHexPrefix cs then scanDigits 16 (cs.drop 2)
  else if cs.head? = some 0x30 then scanDigits 8 cs
  else scanDigits 10 cs

def scanSigned : List (BitVec 8) → Option (Int × List (BitVec 8))
  | [] => none
  | c :: cs =>
    if c = 0x2d then (scanConstant cs).map fun (n, rest) => (-(n : Int), rest)
    else if c = 0x2b then (scanConstant cs).map fun (n, rest) => ((n : Int), rest)
    else (scanConstant (c :: cs)).map fun (n, rest) => ((n : Int), rest)

/-- The longest number behind white space. -/
def scan (cs : List (BitVec 8)) : Option (Int × List (BitVec 8)) :=
  scanSigned (cs.dropWhile isSpace)

/-- What the library functions leave: the value, whether `errno` is `ERANGE`, and `EndPtr`. -/
structure Converted (α : Type) where
  value : α
  erange : Bool
  rest : List (BitVec 8)

/-- `strtoul` with base 0; a sign turns the value around in 64 bits. -/
def strtoul (cs : List (BitVec 8)) : Converted Nat :=
  match scan cs with
  | none => ⟨0, false, cs⟩
  | some (z, rest) =>
    if z.natAbs < 2 ^ 64 then ⟨(z % 2 ^ 64).toNat, false, rest⟩ else ⟨2 ^ 64 - 1, true, rest⟩

/-- `strtoll` with base 0. -/
def strtoll (cs : List (BitVec 8)) : Converted Int :=
  match scan cs with
  | none => ⟨0, false, cs⟩
  | some (z, rest) =>
    if z < -2 ^ 63 then ⟨-2 ^ 63, true, rest⟩
    else if 2 ^ 63 ≤ z then ⟨2 ^ 63 - 1, true, rest⟩
    else ⟨z, false, rest⟩

/-! ## 4. What is read is a number -/

section number
variable {cs num rest ws : List (BitVec 8)} {base n : Nat} {z : Int}

theorem scanDigits_eq_some {r : Nat × List (BitVec 8)} (h : scanDigits base cs = some r) :
    ∃ ds, cs = ds ++ r.2 ∧ ds ≠ [] ∧ (∀ c ∈ ds, isDigit base c = true) ∧ r.1 = valueOf base ds := by
  rw [scanDigits] at h
  split at h
  · cases h
  · next hsome =>
    rw [← Option.some.inj h]
    exact ⟨_, List.takeWhile_append_dropWhile.symm, hsome, fun c hc => List.mem_takeWhile_imp hc, rfl⟩

theorem constant_of_scan (h : scanConstant cs = some (n, rest)) :
    ∃ num, cs = num ++ rest ∧ Constant num n := by
  rw [scanConstant] at h
  split at h
  · next hhex =>
    obtain ⟨ds, hcs, hne, hall, hn⟩ := scanDigits_eq_some h
    match cs, hhex with
    | c :: x :: d :: tail, hhex =>
      obtain ⟨⟨hc, hx⟩, _⟩ : (c = 0x30 ∧ isX x = true) ∧ isDigit 16 d = true := by
        simpa [isHexPrefix] using hhex
      dsimp only at hn hcs
      refine ⟨0x30 :: x :: ds, ?_, hn ▸ Constant.hexadecimal hx hne hall⟩
      rw [hc, List.cons_append, List.cons_append, ← hcs]
      rfl
  · split at h
    · next hzero =>
      obtain ⟨ds, hcs, hne, hall, hn⟩ := scanDigits_eq_some h
      obtain ⟨c, ds, rfl⟩ := List.exists_cons_of_ne_nil hne
      dsimp only at hn hcs
      rw [hcs, List.cons_append, List.head?_cons] at hzero
      obtain rfl := Option.some.inj hzero
      exact ⟨_, hcs, hn ▸ Constant.octal fun c hc => hall c (List.mem_cons_of_mem _ hc)⟩
    · next hzero =>
      obtain ⟨ds, hcs, hne, hall, hn⟩ := scanDigits_eq_some h
      dsimp only at hn hcs
      refine ⟨ds, hcs, hn ▸ Constant.decimal hne (fun hhead => hzero ?_) hall⟩
      rw [hcs, List.head?_append, hhead]
      rfl

theorem number_of_scanSigned (h : scanSigned cs = some (z, rest)) :
    ∃ num, cs = num ++ rest ∧ Number num z := by
  cases cs with
  | nil => cases h
  | cons c cs =>
    rw [scanSigned] at h
    split at h
    · next hc =>
      obtain ⟨⟨n, tail⟩, hscan, hr⟩ := Option.map_eq_some_iff.mp h
      obtain ⟨rfl, rfl⟩ := Prod.mk.inj hr
      obtain ⟨num, hcs, hnum⟩ := constant_of_scan hscan
      exact ⟨0x2d :: num, by rw [hc, hcs]; rfl, Number.minus hnum⟩
    · split at h
      · next hc =>
        obtain ⟨⟨n, tail⟩, hscan, hr⟩ := Option.map_eq_some_iff.mp h
        obtain ⟨rfl, rfl⟩ := Prod.mk.inj hr
        obtain ⟨num, hcs, hnum⟩ := constant_of_scan hscan
        exact ⟨0x2b :: num, by rw [hc, hcs]; rfl, Number.plus hnum⟩
      · obtain ⟨⟨n, tail⟩, hscan, hr⟩ := Option.map_eq_some_iff.mp h
        obtain ⟨rfl, rfl⟩ := Prod.mk.inj hr
        obtain ⟨num, hcs, hnum⟩ := constant_of_scan hscan
        exact ⟨num, hcs, Number.plain hnum⟩

theorem number_of_scan (h : scan cs = some (z, rest)) :
    ∃ ws num, cs = ws ++ num ++ rest ∧ (∀ c ∈ ws, isSpace c = true) ∧ Number num z := by
  obtain ⟨num, hcs, hnum⟩ := number_of_scanSigned h
  refine ⟨cs.takeWhile isSpace, num, ?_, fun c hc => List.mem_takeWhile_imp hc, hnum⟩
  rw [List.append_assoc, ← hcs, List.takeWhile_append_dropWhile]

/-! ## 5. A number is read -/

/-- No number goes on there. -/
def Stops (rest : List (BitVec 8)) : Prop :=
  ∀ c, rest.head? = some c → isDigit 16 c = false ∧ isX c = false

theorem stops_nil : Stops [] := fun c hc => by cases hc

theorem isDigit_mono {c : BitVec 8} {b b' : Nat} (hb : b ≤ b') (h : isDigit b c = true) :
    isDigit b' c = true :=
  decide_eq_true (Nat.lt_of_lt_of_le (of_decide_eq_true h) hb)

theorem scanDigits_append {ds : List (BitVec 8)} (hbase : base ≤ 16) (hne : ds ≠ [])
    (hall : ∀ c ∈ ds, isDigit base c = true) (hrest : Stops rest) :
    scanDigits base (ds ++ rest) = some (valueOf base ds, rest) := by
  have hnone : rest.takeWhile (isDigit base) = [] ∧ rest.dropWhile (isDigit base) = rest := by
    cases rest with
    | nil => exact ⟨rfl, rfl⟩
    | cons c rest =>
      have hc : ¬ isDigit base c = true := by
        intro hdigit
        have h16 := isDigit_mono hbase hdigit
        rw [(hrest c rfl).1] at h16
        cases h16
      exact ⟨List.takeWhile_cons_of_neg hc, List.dropWhile_cons_of_neg hc⟩
  rw [scanDigits, List.takeWhile_append_of_pos hall, List.dropWhile_append_of_pos hall, hnone.1,
    hnone.2, List.append_nil, if_neg hne]

theorem scanConstant_append (h : Constant num n) (hrest : Stops rest) :
    scanConstant (num ++ rest) = some (n, rest) := by
  cases h with
  | decimal hne hhead hall =>
    obtain ⟨c, ds, rfl⟩ := List.exists_cons_of_ne_nil hne
    have hc : c ≠ 0x30 := fun hc => hhead (hc ▸ rfl)
    have hhex : isHexPrefix (c :: ds ++ rest) = false := by
      rw [List.cons_append]
      unfold isHexPrefix
      split
      · next heq =>
        obtain ⟨rfl, _⟩ := List.cons.inj heq
        rw [decide_eq_false hc, Bool.false_and, Bool.false_and]
      · rfl
    have hzero : (c :: ds ++ rest).head? ≠ some 0x30 := by simpa using hc
    rw [scanConstant, hhex, if_neg Bool.false_ne_true, if_neg hzero,
      scanDigits_append (by decide) hne hall hrest]
  | @octal ds hall =>
    have hx : ∀ x tail, ds ++ rest = x :: tail → isX x = false := by
      intro x tail htail
      cases ds with
      | nil =>
        refine (hrest x ?_).2
        rw [List.nil_append] at htail
        rw [htail]
        rfl
      | cons d ds =>
        obtain ⟨rfl, _⟩ := List.cons.inj htail
        have hd := hall d List.mem_cons_self
        cases hisx : isX d with
        | false => rfl
        | true =>
          have hd' : d = 0x78 ∨ d = 0x58 := by simpa [isX] using hisx
          rcases hd' with rfl | rfl
          · exact absurd hd (by decide)
          · exact absurd hd (by decide)
    have hhex : isHexPrefix (0x30 :: ds ++ rest) = false := by
      rw [List.cons_append]
      unfold isHexPrefix
      split
      · next x d tail heq =>
        obtain ⟨_, heq⟩ := List.cons.inj heq
        simp [hx x _ heq]
      · rfl
    have hdigits : ∀ c ∈ (0x30 : BitVec 8) :: ds, isDigit 8 c = true := by
      intro c hc
      rcases List.mem_cons.mp hc with rfl | hc
      · decide
      · exact hall c hc
    have hzero : (0x30 :: ds ++ rest).head? = some (0x30 : BitVec 8) := rfl
    rw [scanConstant, hhex, if_neg Bool.false_ne_true, if_pos hzero,
      scanDigits_append (by decide) (List.cons_ne_nil _ _) hdigits hrest]
  | @hexadecimal x ds hx hne hall =>
    obtain ⟨d, tail, rfl⟩ := List.exists_cons_of_ne_nil hne
    have hhex : isHexPrefix (0x30 :: x :: (d :: tail) ++ rest) = true := by
      simp [isHexPrefix, hx, hall d List.mem_cons_self]
    have hdrop : (0x30 :: x :: (d :: tail) ++ rest).drop 2 = d :: tail ++ rest := rfl
    rw [scanConstant, if_pos hhex, hdrop, scanDigits_append (by decide) hne hall hrest]

theorem isDigit_head (h : Constant num n) : ∃ c cs, num = c :: cs ∧ isDigit 10 c = true := by
  cases h with
  | decimal hne _ hall =>
    obtain ⟨c, ds, rfl⟩ := List.exists_cons_of_ne_nil hne
    exact ⟨c, ds, rfl, hall c List.mem_cons_self⟩
  | octal _ => exact ⟨_, _, rfl, by decide⟩
  | hexadecimal _ _ _ => exact ⟨_, _, rfl, by decide⟩

theorem not_isDigit_of_isSpace {c : BitVec 8} (h : isSpace c = true) : isDigit 10 c = false := by
  have hc : c = 0x20 ∨ 9 ≤ c.toNat ∧ c.toNat ≤ 13 := by
    simpa [isSpace] using h
  have hlow : c.toNat < 0x30 := by
    rcases hc with rfl | ⟨_, hhigh⟩
    · decide
    · omega
  rw [isDigit, digitValue, if_neg (by omega), if_neg (by omega), if_neg (by omega)]
  rfl

theorem scanSigned_append (h : Number num z) (hrest : Stops rest) :
    scanSigned (num ++ rest) = some (z, rest) := by
  cases h with
  | plain hnum =>
    have hscan := scanConstant_append hnum hrest
    obtain ⟨c, cs, rfl, hc⟩ := isDigit_head hnum
    have hminus : c ≠ 0x2d := fun h => absurd (h ▸ hc) (by decide)
    have hplus : c ≠ 0x2b := fun h => absurd (h ▸ hc) (by decide)
    rw [List.cons_append] at hscan ⊢
    rw [scanSigned, if_neg hminus, if_neg hplus, hscan]
    rfl
  | plus hnum =>
    rw [List.cons_append, scanSigned, if_neg (by decide), if_pos rfl,
      scanConstant_append hnum hrest]
    rfl
  | minus hnum =>
    rw [List.cons_append, scanSigned, if_pos rfl, scanConstant_append hnum hrest]
    rfl

theorem not_isSpace_head (h : Number num z) : ∃ c cs, num = c :: cs ∧ isSpace c = false := by
  cases h with
  | plain hnum =>
    obtain ⟨c, cs, rfl, hc⟩ := isDigit_head hnum
    refine ⟨c, cs, rfl, ?_⟩
    cases hspace : isSpace c with
    | false => rfl
    | true =>
      rw [not_isDigit_of_isSpace hspace] at hc
      cases hc
  | plus _ => exact ⟨_, _, rfl, by decide⟩
  | minus _ => exact ⟨_, _, rfl, by decide⟩

theorem ne_zero_of_isDigit {c : BitVec 8} (h : isDigit 16 c = true) : c ≠ 0 := by
  intro hc
  rw [hc] at h
  exact absurd h (by decide)

theorem Constant.ne_zero (h : Constant num n) : ∀ c ∈ num, c ≠ 0 := by
  intro c hc
  cases h with
  | decimal _ _ hall => exact ne_zero_of_isDigit (isDigit_mono (by decide) (hall c hc))
  | octal hall =>
    rcases List.mem_cons.mp hc with rfl | hc
    · decide
    · exact ne_zero_of_isDigit (isDigit_mono (by decide) (hall c hc))
  | hexadecimal hx _ hall =>
    rcases List.mem_cons.mp hc with rfl | hc
    · decide
    · rcases List.mem_cons.mp hc with rfl | hc
      · intro hzero
        rw [hzero] at hx
        exact absurd hx (by decide)
      · exact ne_zero_of_isDigit (hall c hc)

theorem Number.ne_zero (h : Number num z) : ∀ c ∈ num, c ≠ 0 := by
  intro c hc
  cases h with
  | plain hnum => exact hnum.ne_zero c hc
  | plus hnum =>
    rcases List.mem_cons.mp hc with rfl | hc
    · decide
    · exact hnum.ne_zero c hc
  | minus hnum =>
    rcases List.mem_cons.mp hc with rfl | hc
    · decide
    · exact hnum.ne_zero c hc

theorem scan_append (hws : ∀ c ∈ ws, isSpace c = true) (h : Number num z) (hrest : Stops rest) :
    scan (ws ++ num ++ rest) = some (z, rest) := by
  obtain ⟨c, cs, hnum, hc⟩ := not_isSpace_head h
  have hnone : (num ++ rest).dropWhile isSpace = num ++ rest := by
    rw [hnum, List.cons_append]
    exact List.dropWhile_cons_of_neg (by rw [hc]; exact Bool.false_ne_true)
  rw [scan, List.append_assoc, List.dropWhile_append_of_pos hws, hnone]
  exact scanSigned_append h hrest

theorem scan_number (h : Number num z) : scan (cString num) = some (z, []) := by
  have hscan : scan ([] ++ num ++ []) = some (z, []) :=
    scan_append (fun c hc => absurd hc List.not_mem_nil) h stops_nil
  rw [List.nil_append, List.append_nil] at hscan
  rw [cString_of_ne_zero h.ne_zero, hscan]

/-- There is white space in front. -/
def leadingSpace (cs : List (BitVec 8)) : Prop := ∃ c tail, cs = c :: tail ∧ isSpace c = true

/-- Without white space in front, a string is read as a number and what follows it where it is
    that. -/
theorem scan_iff (hrest : Stops rest) :
    (∃ num, Number num z ∧ cs = num ++ rest) ↔ ¬ leadingSpace cs ∧ scan cs = some (z, rest) := by
  constructor
  · intro ⟨num, hnum, hcs⟩
    refine ⟨fun ⟨c, tail, hc, hspace⟩ => ?_, ?_⟩
    · obtain ⟨c', cs', hhead, hc'⟩ := not_isSpace_head hnum
      rw [hcs, hhead, List.cons_append] at hc
      rw [(List.cons.inj hc).1, hspace] at hc'
      cases hc'
    · rw [hcs]
      exact scan_append (fun c hc => absurd hc List.not_mem_nil) hnum hrest
  · intro ⟨hspace, hscan⟩
    obtain ⟨ws, num, hcs, hws, hnum⟩ := number_of_scan hscan
    cases ws with
    | nil => exact ⟨num, hnum, hcs⟩
    | cons c ws => exact absurd ⟨c, _, hcs, hws c List.mem_cons_self⟩ hspace

theorem rest_of_scan_none (h : scan cs = none) :
    strtoul cs = ⟨0, false, cs⟩ ∧ strtoll cs = ⟨0, false, cs⟩ := by
  rw [strtoul, strtoll, h]
  exact ⟨rfl, rfl⟩

end number

/-! ## 6. Printing -/

/-- A digit of base 16, with upper-case letters. -/
def hexDigit (d : Nat) : BitVec 8 := BitVec.ofNat 8 (if d < 10 then 0x30 + d else 0x37 + d)

/-- A number in base 16, with zeros in front up to a width that is not 0. -/
def hexDigits (width n : Nat) : List (BitVec 8) :=
  let ds := (Nat.digits 16 n).reverse.map hexDigit
  List.replicate (width - ds.length) 0x30 ++ ds

theorem digitValue_hexDigit {d : Nat} (hd : d < 16) : digitValue (hexDigit d) = d := by
  have hall : ∀ d < 16, digitValue (hexDigit d) = d := by decide
  exact hall d hd

theorem valueOf_append (base : Nat) (ds : List (BitVec 8)) (c : BitVec 8) :
    valueOf base (ds ++ [c]) = base * valueOf base ds + digitValue c := by
  rw [valueOf, List.foldl_append]
  rfl

theorem valueOf_zeros (base n : Nat) (ds : List (BitVec 8)) :
    valueOf base (List.replicate n 0x30 ++ ds) = valueOf base ds := by
  have hzeros : (List.replicate n (0x30 : BitVec 8)).foldl (fun v c => base * v + digitValue c) 0 =
      0 := by
    induction n with
    | zero => rfl
    | succ n ih =>
      have hzero : base * 0 + digitValue 0x30 = 0 := by
        rw [Nat.mul_zero]
        rfl
      rw [List.replicate_succ, List.foldl_cons, hzero, ih]
  rw [valueOf, List.foldl_append, hzeros, valueOf]

theorem valueOf_hexDigit {base : Nat} {l : List Nat} (hl : ∀ d ∈ l, d < 16) :
    valueOf base (l.reverse.map hexDigit) = Nat.ofDigits base l := by
  induction l with
  | nil => rfl
  | cons d l ih =>
    rw [List.reverse_cons, List.map_append, List.map_singleton, valueOf_append,
      ih fun d hd => hl d (List.mem_cons_of_mem _ hd),
      digitValue_hexDigit (hl d List.mem_cons_self), Nat.ofDigits_cons, Nat.add_comm]

theorem valueOf_hexDigits (width n : Nat) : valueOf 16 (hexDigits width n) = n := by
  rw [hexDigits, valueOf_zeros, valueOf_hexDigit fun d hd => Nat.digits_lt_base (by decide) hd,
    Nat.ofDigits_digits]

theorem isDigit_hexDigits (width n : Nat) : ∀ c ∈ hexDigits width n, isDigit 16 c = true := by
  intro c hc
  rcases List.mem_append.mp hc with hzero | hdigit
  · rw [(List.mem_replicate.mp hzero).2]
    decide
  · obtain ⟨d, hd, rfl⟩ := List.mem_map.mp hdigit
    have hlt : d < 16 := Nat.digits_lt_base (by decide) (List.mem_reverse.mp hd)
    rw [isDigit, digitValue_hexDigit hlt]
    exact decide_eq_true hlt

theorem hexDigits_ne_nil {width : Nat} (hwidth : 0 < width) (n : Nat) : hexDigits width n ≠ [] := by
  intro h
  have hlen := congrArg List.length h
  rw [hexDigits, List.length_append, List.length_replicate, List.length_nil] at hlen
  omega

theorem number_hexDigits {width : Nat} (hwidth : 0 < width) (n : Nat) :
    Number (0x30 :: 0x78 :: hexDigits width n) n := by
  have h : Constant (0x30 :: 0x78 :: hexDigits width n) (valueOf 16 (hexDigits width n)) :=
    Constant.hexadecimal (by decide) (hexDigits_ne_nil hwidth n) (isDigit_hexDigits width n)
  rw [valueOf_hexDigits] at h
  exact Number.plain h

/-- A number in base 10. -/
def decimal (n : Nat) : List (BitVec 8) :=
  if n = 0 then [0x30] else (Nat.digits 10 n).reverse.map hexDigit

/-- A number in base 10 with its sign, as a stream puts it out. -/
def signedDecimal (z : Int) : List (BitVec 8) :=
  if z < 0 then 0x2d :: decimal z.natAbs else decimal z.natAbs

/-- The first digit of a number that is not zero is not zero. -/
theorem head_decimal {n : Nat} (hn : n ≠ 0) :
    ((Nat.digits 10 n).reverse.map hexDigit).head? ≠ some 0x30 := by
  have hne : Nat.digits 10 n ≠ [] := Nat.digits_ne_nil_iff_ne_zero.mpr hn
  have hlast := Nat.getLast_digit_ne_zero 10 hn
  have hlt : (Nat.digits 10 n).getLast hne < 10 :=
    Nat.digits_lt_base (by decide) (List.getLast_mem hne)
  rw [List.head?_map, List.head?_reverse, List.getLast?_eq_getLast_of_ne_nil hne]
  intro h
  have hdigit := congrArg digitValue (Option.some.inj h)
  rw [digitValue_hexDigit (by omega)] at hdigit
  exact hlast hdigit

theorem constant_decimal (n : Nat) : Constant (decimal n) n := by
  rw [decimal]
  by_cases hn : n = 0
  · rw [if_pos hn, hn]
    exact Constant.octal fun c hc => absurd hc List.not_mem_nil
  · rw [if_neg hn]
    have hdigits : ∀ d ∈ Nat.digits 10 n, d < 10 := fun d hd => Nat.digits_lt_base (by decide) hd
    have hvalue : valueOf 10 ((Nat.digits 10 n).reverse.map hexDigit) = n := by
      rw [valueOf_hexDigit fun d hd => Nat.lt_trans (hdigits d hd) (by decide), Nat.ofDigits_digits]
    have hne : (Nat.digits 10 n).reverse.map hexDigit ≠ [] := by
      simpa using Nat.digits_ne_nil_iff_ne_zero.mpr hn
    have hall : ∀ c ∈ (Nat.digits 10 n).reverse.map hexDigit, isDigit 10 c = true := by
      intro c hc
      obtain ⟨d, hd, rfl⟩ := List.mem_map.mp hc
      have hlt := hdigits d (List.mem_reverse.mp hd)
      rw [isDigit, digitValue_hexDigit (by omega)]
      exact decide_eq_true hlt
    have h := Constant.decimal hne (head_decimal hn) hall
    rwa [hvalue] at h

theorem number_signedDecimal (z : Int) : Number (signedDecimal z) z := by
  rw [signedDecimal]
  by_cases hz : z < 0
  · have h := Number.minus (constant_decimal z.natAbs)
    rw [show -((z.natAbs : Nat) : Int) = z by omega] at h
    rw [if_pos hz]
    exact h
  · have h := Number.plain (constant_decimal z.natAbs)
    rw [show ((z.natAbs : Nat) : Int) = z by omega] at h
    rw [if_neg hz]
    exact h

end CNumber
