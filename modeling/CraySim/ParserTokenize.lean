/-
  Subject:   Splitting a line into tokens, as `parser.cpp` does it.

  The kinds of tokens are tried one after the other; the first that matches is taken. Where none
  does, an exception shows the line and the place. The loop that puts blanks in front of the mark
  there counts the place up instead of the blanks: it ends when 64 bits are full.

  * `tokenDefs` -- `TokenDefs`,
  * `tokenRound` -- the loop of `Tokenize`,
  * `tokenize`, `Tokenizes` -- both, and what they end with,
  * `errorRound_rounds` -- how many rounds the second one takes,
  * `Pieces`, `Covers` -- what the tokens and the white space have taken,
  * `tokenize_ends` -- every line is split or refused, the tokens cover it, and a quoted string is
    read back.
-/
import CraySim.Lib.DoWhile
import CraySim.Lib.EcmaRegex
import CraySim.Types

namespace CraySim

namespace Parser

open DoWhile
open EcmaRegex (Regex)
open EcmaRegex.Regex

/-- Characters of a string. -/
abbrev Chars := List (BitVec 8)

/-! ## 1. Tokens -/

/-- `TokenTypes_e`. -/
inductive TokenTypes where
  | string
  | comment
  | delimiter
  | word
  | endOfLine
  | whitespace
  | any
  deriving DecidableEq, Repr

/-- `Token_t`. -/
structure Token where
  mTokenId : TokenTypes
  mValue : Chars
  deriving DecidableEq, Repr

/-- `TokenDef_c`. -/
structure TokenDef where
  mFilter : Regex (BitVec 8)
  mTokenId : TokenTypes
  mSkip : Bool
  mPostProcess : TokenTypes → Chars → Token

def quoteChar : BitVec 8 := 0x22

/-- One character. -/
def one (c : BitVec 8) : Regex (BitVec 8) := char (· = c)

def defaultPostProcess (aTokenId : TokenTypes) (text : Chars) : Token := ⟨aTokenId, text⟩

/-- `PostProcessString`: the quotes around the string go, and one of two quotes in it. -/
def postProcessString (aTokenId : TokenTypes) (text : Chars) : Token :=
  ⟨aTokenId, replace (seq (one quoteChar) (one quoteChar)) [quoteChar] text.tail.dropLast⟩

/-- The constructor: `^` is put in front of the expression. -/
def tokenDef (aFilter : Regex (BitVec 8)) (aTokenId : TokenTypes) (aSkip : Bool)
    (aPostProcess : TokenTypes → Chars → Token) : TokenDef :=
  ⟨seq bol aFilter, aTokenId, aSkip, aPostProcess⟩

/-- `[\r\t ]`. -/
def isBlank (c : BitVec 8) : Bool := c = 0x0d || c = 0x09 || c = 0x20

/-- `[;=]`. -/
def isDelimiter (c : BitVec 8) : Bool := c = 0x3b || c = 0x3d

/-- `[^ \r\t\n;=]`. -/
def isWord (c : BitVec 8) : Bool := !(isBlank c || c = 0x0a || isDelimiter c)

/-- `.`: everything but the ends of lines. -/
def isAny (c : BitVec 8) : Bool := !(c = 0x0a || c = 0x0d)

/-- The expression of a string. -/
def stringFilter : Regex (BitVec 8) :=
  seq (one quoteChar)
    (seq (star (alt (char (· ≠ quoteChar)) (seq (one quoteChar) (one quoteChar))))
      (one quoteChar))

section tokenize
-- `multiline`: whether `$` stands for the end of a line too; `cap`: what a string can hold
variable (multiline : Bool) (cap : Nat)

def tokenDefs : List TokenDef :=
  [tokenDef (plus (char isBlank)) .whitespace true defaultPostProcess,
   tokenDef stringFilter .string false postProcessString,
   tokenDef (seq (one 0x23) (seq (star (char isAny)) (eol fun c => multiline && !isAny c)))
     .comment false defaultPostProcess,
   tokenDef (char isDelimiter) .delimiter false defaultPostProcess,
   tokenDef (plus (char isWord)) .word false defaultPostProcess,
   tokenDef (char isAny) .any false defaultPostProcess]

/-! ## 2. `Tokenize` -/

/-- `Match`: the end of the match. -/
def TokenDef.match (d : TokenDef) (First : Chars) : Option Chars :=
  (search d.mFilter First).map Prod.snd

/-- The first kind of token that matches, and what is left behind it. -/
def findDef : List TokenDef → Chars → Option (TokenDef × Chars)
  | [], _ => none
  | d :: ds, First =>
    match d.match First with
    | some NewFirst => some (d, NewFirst)
    | none => findDef ds First

/-- What stands in front of the rest. -/
def taken (First NewFirst : Chars) : Chars := First.take (First.length - NewFirst.length)

/-- A round of the loop: what is left, and the tokens. It ends with the tokens, or in front of
    something that no kind of token matches. -/
def tokenRound (s : Chars × List Token) : (Chars × List Token) ⊕ Except Chars (List Token) :=
  if s.1 = [] then .inr (.ok s.2)
  else
    match findDef (tokenDefs multiline) s.1 with
    | some (d, NewFirst) =>
      .inl (NewFirst,
        if d.mSkip then s.2 else s.2 ++ [d.mPostProcess d.mTokenId (taken s.1 NewFirst)])
    | none => .inr (.error s.1)

/-- Characters put into a stream; what it cannot hold is lost. -/
def put (Strm cs : Chars) : Chars := (Strm ++ cs).take cap

/-- A round of `for (size_t i = 0; i < Pos; ++Pos)`. -/
def errorRound (s : BitVec 64 × Chars) : (BitVec 64 × Chars) ⊕ Chars :=
  if 0 < s.1 then .inl (s.1 + 1, put cap s.2 [0x20]) else .inr s.2

/-- **`FormatErrorLine`**, with so many rounds for its loop. -/
def formatErrorLine (fuel : Nat) (aLine : Chars) (Pos : BitVec 64) : Option Chars :=
  (loop (errorRound cap) fuel (Pos, put cap [] (aLine ++ [0x0a]))).map fun Strm =>
    put cap Strm [0x5e]

/-- **`Tokenize`**, with so many rounds for its loop and for that of the error message: the tokens or
    the text of the exception. -/
def tokenize (fuel fuel' : Nat) (aStr : Chars) : Option (Except Chars (List Token)) :=
  (loop (tokenRound multiline) fuel (aStr, [])).bind fun
    | .ok Tokens => some (.ok (Tokens ++ [⟨.endOfLine, []⟩]))
    | .error First =>
      (formatErrorLine cap fuel' aStr (BitVec.ofNat 64 (aStr.length - First.length))).map .error

/-- What `Tokenize` ends with. -/
def Tokenizes (aStr : Chars) (r : Except Chars (List Token)) : Prop :=
  ∃ fuel fuel', tokenize multiline cap fuel fuel' aStr = some r

/-! ## 3. What it is for -/

/-- What is taken from the front of a string, piece by piece: each time the first kind of token that
    matches what is left. -/
inductive Pieces (aStr : Chars) : List (TokenDef × Chars) → Chars → Prop where
  | start : Pieces aStr [] aStr
  | next {ps d text rest} : Pieces aStr ps (text ++ rest) → text ≠ [] →
      findDef (tokenDefs multiline) (text ++ rest) = some (d, rest) →
      (d.mSkip = true → ∀ c ∈ text, isBlank c = true) → Pieces aStr (ps ++ [(d, text)]) rest

/-- The tokens of the pieces that are not skipped. -/
def tokensOf (ps : List (TokenDef × Chars)) : List Token :=
  (ps.filter fun p => !p.1.mSkip).map fun p => p.1.mPostProcess p.1.mTokenId p.2

/-- The pieces make up the string, and their tokens are those of the list in front of its end. -/
def Covers (aStr : Chars) (Tokens : List Token) : Prop :=
  ∃ ps, Pieces multiline aStr ps [] ∧ (ps.map Prod.snd).flatten = aStr ∧
    Tokens = tokensOf ps ++ [⟨.endOfLine, []⟩]

end tokenize

/-- A string with each quote doubled. -/
def double : Chars → Chars
  | [] => []
  | c :: v => if c = quoteChar then quoteChar :: quoteChar :: double v else c :: double v

/-- A string in quotes. -/
def quote (v : Chars) : Chars := quoteChar :: (double v ++ [quoteChar])

/-! ## 4. The error message -/

section proofs
variable {multiline : Bool} {cap : Nat} {aStr First rest : Chars}

/-- The loop of the message takes the rounds that are missing to 2^64. -/
theorem errorRound_rounds (fuel : Nat) (Pos : BitVec 64) (Strm : Chars) :
    (∃ text, loop (errorRound cap) fuel (Pos, Strm) = some text) ↔ (-Pos).toNat < fuel := by
  induction fuel generalizing Pos Strm with
  | zero => simp [loop]
  | succ fuel ih =>
    have hzero : (0 : BitVec 64).toNat = 0 := rfl
    have hone : (1 : BitVec 64).toNat = 1 := rfl
    have hlt := Pos.isLt
    by_cases hpos : 0 < Pos
    · have hround : errorRound cap (Pos, Strm) = .inl (Pos + 1, put cap Strm [0x20]) := if_pos hpos
      rw [BitVec.lt_def, hzero] at hpos
      rw [loop_inl hround, ih, BitVec.toNat_neg, BitVec.toNat_neg, BitVec.toNat_add, hone]
      omega
    · have hround : errorRound cap (Pos, Strm) = .inr Strm := if_neg hpos
      rw [BitVec.lt_def, hzero] at hpos
      rw [loop_inr hround, BitVec.toNat_neg]
      refine ⟨fun _ => ?_, fun _ => ⟨Strm, rfl⟩⟩
      omega

theorem formatErrorLine_ends (cap : Nat) (aLine : Chars) (Pos : BitVec 64) :
    ∃ fuel text, formatErrorLine cap fuel aLine Pos = some text := by
  have hrounds : ∃ text, loop (errorRound cap) ((-Pos).toNat + 1)
      (Pos, put cap [] (aLine ++ [0x0a])) = some text :=
    (errorRound_rounds _ Pos _).mpr (Nat.lt_succ_self _)
  obtain ⟨text, htext⟩ := hrounds
  refine ⟨(-Pos).toNat + 1, put cap text [0x5e], ?_⟩
  rw [formatErrorLine, htext]
  rfl

theorem formatErrorLine_unique {aLine text text' : Chars} {Pos : BitVec 64} {fuel fuel' : Nat}
    (h : formatErrorLine cap fuel aLine Pos = some text)
    (h' : formatErrorLine cap fuel' aLine Pos = some text') : text = text' := by
  obtain ⟨Strm, hStrm, rfl⟩ := Option.map_eq_some_iff.mp h
  obtain ⟨Strm', hStrm', rfl⟩ := Option.map_eq_some_iff.mp h'
  rw [Ends.unique ⟨fuel, hStrm⟩ ⟨fuel', hStrm'⟩]

/-! ## 5. A kind of token -/

/-- Every kind of token takes something; what is skipped is blank. -/
theorem tokenDefs_consume {d : TokenDef} (hd : d ∈ tokenDefs multiline) :
    ∃ r, d.mFilter = seq bol r ∧ Consumes r ∧ (d.mSkip = true → r = plus (char isBlank)) := by
  rw [tokenDefs] at hd
  simp only [List.mem_cons, List.not_mem_nil, or_false] at hd
  rcases hd with rfl | rfl | rfl | rfl | rfl | rfl
  · exact ⟨_, rfl, consumes_plus consumes_char, fun _ => rfl⟩
  · exact ⟨_, rfl, consumes_seq_left consumes_char, fun h => by cases h⟩
  · exact ⟨_, rfl, consumes_seq_left consumes_char, fun h => by cases h⟩
  · exact ⟨_, rfl, consumes_char, fun h => by cases h⟩
  · exact ⟨_, rfl, consumes_plus consumes_char, fun h => by cases h⟩
  · exact ⟨_, rfl, consumes_char, fun h => by cases h⟩

theorem findDef_eq_some {ds : List TokenDef} {d : TokenDef} (h : findDef ds First = some (d, rest)) :
    d ∈ ds ∧ d.match First = some rest := by
  induction ds with
  | nil => cases h
  | cons d' ds ih =>
    rw [findDef] at h
    split at h
    · next NewFirst hmatch =>
      obtain ⟨rfl, rfl⟩ := Prod.mk.inj (Option.some.inj h)
      exact ⟨List.mem_cons_self, hmatch⟩
    · obtain ⟨hmem, hmatch⟩ := ih h
      exact ⟨List.mem_cons_of_mem d' hmem, hmatch⟩

theorem taken_spec {d : TokenDef} (h : findDef (tokenDefs multiline) First = some (d, rest)) :
    First = taken First rest ++ rest ∧ taken First rest ≠ [] ∧
      (d.mSkip = true → ∀ c ∈ taken First rest, isBlank c = true) := by
  obtain ⟨hd, hmatch⟩ := findDef_eq_some h
  obtain ⟨r, hr, hconsumes, hskip⟩ := tokenDefs_consume hd
  rw [TokenDef.match, hr, search_bol, Option.map_map] at hmatch
  obtain ⟨rest', hat, hrest⟩ := Option.map_eq_some_iff.mp hmatch
  obtain rfl : rest' = rest := hrest
  have hmem := mem_of_matchAt hat
  have hless := hconsumes _ _ _ hmem
  obtain ⟨text, htext⟩ := suffix_ends hmem
  have htaken : taken First rest' = text := by
    have hlen : First.length - rest'.length = text.length := by
      rw [← htext, List.length_append]
      omega
    rw [taken, hlen, ← htext, List.take_left']
    rfl
  rw [htaken]
  refine ⟨htext.symm, ?_, fun hs => ?_⟩
  · intro hnil
    rw [← htext, hnil, List.nil_append] at hless
    exact Nat.lt_irrefl _ hless
  · rw [hskip hs] at hmem
    obtain ⟨text', htext', hblank⟩ := chars_of_plus hmem
    obtain rfl : text' = text := List.append_cancel_right (htext'.symm.trans htext.symm)
    exact hblank

/-! ## 6. The loop over the string -/

theorem flatten_of_pieces {ps : List (TokenDef × Chars)} (h : Pieces multiline aStr ps First) :
    (ps.map Prod.snd).flatten ++ First = aStr := by
  induction h with
  | start => rfl
  | next _ _ _ _ ih =>
    rw [← ih, List.map_append, List.flatten_append, List.append_assoc]
    simp

theorem tokensOf_append (ps : List (TokenDef × Chars)) (d : TokenDef) (text : Chars) :
    tokensOf (ps ++ [(d, text)]) =
      if d.mSkip then tokensOf ps else tokensOf ps ++ [d.mPostProcess d.mTokenId text] := by
  rw [tokensOf, tokensOf, List.filter_append, List.map_append]
  cases hskip : d.mSkip with
  | true => simp [hskip]
  | false => simp [hskip]

/-- The loop has taken pieces and kept their tokens. -/
def Read (multiline : Bool) (aStr : Chars) (s : Chars × List Token) : Prop :=
  ∃ ps, Pieces multiline aStr ps s.1 ∧ s.2 = tokensOf ps

theorem read_next {s s' : Chars × List Token} (h : Read multiline aStr s)
    (hround : tokenRound multiline s = .inl s') :
    Read multiline aStr s' ∧ s'.1.length < s.1.length := by
  obtain ⟨First, Tokens⟩ := s
  obtain ⟨ps, hps, htokens⟩ := h
  rw [tokenRound] at hround
  split at hround
  · cases hround
  · split at hround
    · next d NewFirst hfind =>
      obtain ⟨htext, hne, hblank⟩ := taken_spec hfind
      obtain rfl := Sum.inl.inj hround
      constructor
      · refine ⟨ps ++ [(d, taken First NewFirst)], ?_, ?_⟩
        · refine Pieces.next ?_ hne ?_ hblank
          · rw [← htext]
            exact hps
          · rw [← htext]
            exact hfind
        · rw [tokensOf_append]
          dsimp only at htokens ⊢
          rw [htokens]
      · have hlen := congrArg List.length htext
        have hpos := List.length_pos_iff.mpr hne
        rw [List.length_append] at hlen
        dsimp only at hlen hpos ⊢
        omega
    · cases hround

/-- The loop ends with the tokens where nothing is left. -/
theorem tokenRound_ok {s : Chars × List Token} {Tokens : List Token}
    (h : tokenRound multiline s = .inr (.ok Tokens)) : s.1 = [] ∧ Tokens = s.2 := by
  rw [tokenRound] at h
  split at h
  · next hnil => exact ⟨hnil, (Except.ok.inj (Sum.inr.inj h)).symm⟩
  · split at h
    · cases h
    · cases h

/-- Every string is split or refused, in one way, and the tokens cover it. -/
theorem tokenize_spec (multiline : Bool) (cap : Nat) (aStr : Chars) :
    ∃ r, Tokenizes multiline cap aStr r ∧ (∀ r', Tokenizes multiline cap aStr r' → r' = r) ∧
      ∀ Tokens, r = .ok Tokens → Covers multiline aStr Tokens := by
  obtain ⟨t, out, ⟨ps, hps, htokens⟩, hlast, fuel, hloop⟩ :=
    ends_of_variant (tokenRound multiline) (Read multiline aStr) (fun s => s.1.length)
      (fun s s' hs hround => read_next hs hround)
      (⟨[], Pieces.start, rfl⟩ : Read multiline aStr (aStr, []))
  have hunique : ∀ fuel₁ out₁, loop (tokenRound multiline) fuel₁ (aStr, []) = some out₁ →
      out₁ = out := fun fuel₁ out₁ h₁ => Ends.unique ⟨fuel₁, h₁⟩ ⟨fuel, hloop⟩
  cases out with
  | ok Tokens =>
    refine ⟨.ok (Tokens ++ [⟨.endOfLine, []⟩]), ⟨fuel, 0, ?_⟩, ?_, ?_⟩
    · rw [tokenize, hloop]
      rfl
    · intro r' ⟨fuel₁, fuel₂, h₁⟩
      obtain ⟨out₁, hout₁, hr'⟩ := Option.bind_eq_some_iff.mp h₁
      rw [hunique fuel₁ out₁ hout₁] at hr'
      exact (Option.some.inj hr').symm
    · intro Tokens' hTokens'
      obtain ⟨hnil, hall⟩ := tokenRound_ok hlast
      rw [hnil] at hps
      have hflatten := flatten_of_pieces hps
      rw [List.append_nil] at hflatten
      refine ⟨ps, hps, hflatten, ?_⟩
      rw [← Except.ok.inj hTokens', hall, htokens]
  | error First =>
    obtain ⟨fuel', text, htext⟩ := formatErrorLine_ends cap aStr
      (BitVec.ofNat 64 (aStr.length - First.length))
    refine ⟨.error text, ⟨fuel, fuel', ?_⟩, ?_, fun Tokens h => by cases h⟩
    · rw [tokenize, hloop]
      dsimp only [Option.bind]
      rw [htext]
      rfl
    · intro r' ⟨fuel₁, fuel₂, h₁⟩
      obtain ⟨out₁, hout₁, hr'⟩ := Option.bind_eq_some_iff.mp h₁
      rw [hunique fuel₁ out₁ hout₁] at hr'
      obtain ⟨text', htext', rfl⟩ := Option.map_eq_some_iff.mp hr'
      rw [formatErrorLine_unique htext htext']

/-! ## 7. Quoted strings -/

theorem double_nil : double [] = [] := rfl

theorem double_quote (v : Chars) :
    double (quoteChar :: v) = quoteChar :: quoteChar :: double v := rfl

theorem double_other {c : BitVec 8} (hc : c ≠ quoteChar) (v : Chars) :
    double (c :: v) = c :: double v := if_neg hc

theorem ends_quotes (total : Nat) (cs : Chars) :
    ends total (seq (one quoteChar) (one quoteChar)) (quoteChar :: quoteChar :: cs) = [cs] := by
  simp [ends_seq, one, ends_char_cons]

theorem ends_quotes_other {total : Nat} {c : BitVec 8} {cs : Chars} (hc : c ≠ quoteChar) :
    ends total (seq (one quoteChar) (one quoteChar)) (c :: cs) = [] := by
  simp [ends_seq, one, ends_char_cons, hc]

theorem ends_quotes_last (total : Nat) :
    ends total (seq (one quoteChar) (one quoteChar)) [quoteChar] = [] := by
  simp [ends_seq, one, ends_char_nil, ends_char_cons]

/-- What is repeated in a string. -/
def inner : Regex (BitVec 8) :=
  alt (char (· ≠ quoteChar)) (seq (one quoteChar) (one quoteChar))

theorem ends_inner_quotes (total : Nat) (cs : Chars) :
    ends total inner (quoteChar :: quoteChar :: cs) = [cs] := by
  have hleft : ends total (char fun c : BitVec 8 => c ≠ quoteChar) (quoteChar :: quoteChar :: cs) =
      [] := by
    simp [ends_char_cons]
  rw [inner, ends_alt, hleft, ends_quotes, List.nil_append]

theorem ends_inner_other {total : Nat} {c : BitVec 8} {cs : Chars} (hc : c ≠ quoteChar) :
    ends total inner (c :: cs) = [cs] := by
  have hleft : ends total (char fun c : BitVec 8 => c ≠ quoteChar) (c :: cs) = [cs] := by
    simp [ends_char_cons, hc]
  rw [inner, ends_alt, hleft, ends_quotes_other hc, List.append_nil]

theorem ends_inner_last (total : Nat) : ends total inner [quoteChar] = [] := by
  have hleft : ends total (char fun c : BitVec 8 => c ≠ quoteChar) [quoteChar] = [] := by
    simp [ends_char_cons]
  rw [inner, ends_alt, hleft, ends_quotes_last, List.nil_append]

theorem head_starEnds {f g : Chars → List Chars} {fuel : Nat} {cs next : Chars} {out : Chars}
    (hf : f cs = [next]) (hless : next.length < cs.length)
    (h : ((starEnds f fuel next).flatMap g).head? = some out) :
    ((starEnds f (fuel + 1) cs).flatMap g).head? = some out := by
  have hkeep : ([next].filter fun rest => rest.length < cs.length) = [next] := by
    simp [hless]
  rw [starEnds_succ, hf, hkeep, List.flatMap_singleton, List.flatMap_append, List.head?_append, h,
    Option.some_or]

/-- The repetition runs through the doubled string up to the last quote. -/
theorem head_double (total : Nat) (v : Chars) {fuel : Nat}
    (hfuel : (double v ++ [quoteChar]).length ≤ fuel) :
    ((starEnds (ends total inner) fuel (double v ++ [quoteChar])).flatMap
      (ends total (one quoteChar))).head? = some [] := by
  induction v generalizing fuel with
  | nil =>
    cases fuel with
    | zero => exact absurd hfuel (by decide)
    | succ fuel =>
      rw [double_nil, List.nil_append, starEnds_succ, ends_inner_last]
      simp [one, ends_char_cons]
  | cons c v ih =>
    cases fuel with
    | zero =>
      rw [List.length_append, List.length_singleton] at hfuel
      omega
    | succ fuel =>
      rcases eq_or_ne c quoteChar with rfl | hc
      · rw [double_quote] at hfuel ⊢
        rw [List.cons_append, List.cons_append] at hfuel ⊢
        rw [List.length_cons, List.length_cons] at hfuel
        refine head_starEnds (ends_inner_quotes total _) ?_ (ih (by omega))
        rw [List.length_cons, List.length_cons]
        omega
      · rw [double_other hc, List.cons_append] at hfuel ⊢
        rw [List.length_cons] at hfuel
        exact head_starEnds (ends_inner_other hc) (Nat.lt_succ_self _) (ih (by omega))

theorem findDef_quote (multiline : Bool) (v : Chars) :
    findDef (tokenDefs multiline) (quote v) =
      some (tokenDef stringFilter .string false postProcessString, []) := by
  have hblank : (tokenDef (plus (char isBlank)) .whitespace true defaultPostProcess).match
      (quote v) = none := by
    have hquote : isBlank quoteChar = false := by decide
    rw [TokenDef.match, tokenDef, search_bol, matchAt, plus, ends_seq, quote, ends_char_cons, hquote]
    rfl
  have hstring : (tokenDef stringFilter .string false postProcessString).match (quote v) =
      some [] := by
    have hopen : ∀ cs, ends (quote v).length (one quoteChar) (quoteChar :: cs) = [cs] := by
      intro cs
      rw [one, ends_char_cons, if_pos (decide_eq_true rfl)]
    have hbody : (ends (quote v).length stringFilter (quote v)).head? = some [] := by
      rw [stringFilter, ends_seq]
      nth_rewrite 3 [quote]
      rw [hopen, List.flatMap_singleton, ends_seq]
      exact head_double _ v (Nat.le_refl _)
    rw [TokenDef.match, tokenDef, search_bol, matchAt, hbody]
    rfl
  rw [tokenDefs, findDef, hblank]
  dsimp only
  rw [findDef, hstring]

theorem replace_double (v : Chars) :
    replace (seq (one quoteChar) (one quoteChar)) [quoteChar] (double v) = v := by
  have hall : ∀ (v : Chars) (total fuel : Nat), (double v).length ≤ fuel →
      replaceFrom total (seq (one quoteChar) (one quoteChar)) [quoteChar] fuel (double v) = v := by
    intro v total
    induction v with
    | nil =>
      intro fuel _
      cases fuel with
      | zero => rfl
      | succ fuel => rfl
    | cons c v ih =>
      intro fuel hfuel
      rcases eq_or_ne c quoteChar with rfl | hc
      · rw [double_quote] at hfuel ⊢
        rw [List.length_cons, List.length_cons] at hfuel
        cases fuel with
        | zero => omega
        | succ fuel =>
          rw [replaceFrom_cons, matchAt, ends_quotes]
          dsimp only [List.head?_cons]
          rw [ih fuel (by omega), List.singleton_append]
      · rw [double_other hc] at hfuel ⊢
        rw [List.length_cons] at hfuel
        cases fuel with
        | zero => omega
        | succ fuel =>
          rw [replaceFrom_cons, matchAt, ends_quotes_other hc]
          dsimp only [List.head?_nil]
          rw [ih fuel (by omega)]
  exact hall v _ _ (Nat.le_refl _)

/-- A quoted string is one token, with the string. -/
theorem tokenizes_quote (multiline : Bool) (cap : Nat) (v : Chars) :
    Tokenizes multiline cap (quote v) (.ok [⟨.string, v⟩, ⟨.endOfLine, []⟩]) := by
  have hne : quote v ≠ [] := List.cons_ne_nil _ _
  have hvalue : postProcessString .string (taken (quote v) []) = ⟨.string, v⟩ := by
    have htaken : taken (quote v) [] = quote v := by
      rw [taken, List.length_nil, Nat.sub_zero, List.take_length]
    rw [postProcessString, htaken, quote, List.tail_cons, List.dropLast_concat, replace_double]
  have hround : tokenRound multiline (quote v, []) = .inl ([], [⟨.string, v⟩]) := by
    rw [tokenRound, if_neg hne, findDef_quote]
    dsimp only [tokenDef]
    rw [hvalue]
    rfl
  refine ⟨2, 0, ?_⟩
  rw [tokenize, loop_inl hround]
  rfl

end proofs

/-- **`Tokenize`**: every string is split or refused, in one way; the tokens and the white space make
    up the string, and the list ends with the end of the line; and a string in quotes is read as
    that string. -/
theorem tokenize_ends (multiline : Bool) (cap : Nat) :
    (∀ aStr, ∃ r, Tokenizes multiline cap aStr r ∧
      (∀ r', Tokenizes multiline cap aStr r' → r' = r) ∧
        ∀ Tokens, r = .ok Tokens → Covers multiline aStr Tokens) ∧
    ∀ v, Tokenizes multiline cap (quote v) (.ok [⟨.string, v⟩, ⟨.endOfLine, []⟩]) :=
  ⟨tokenize_spec multiline cap, tokenizes_quote multiline cap⟩

end Parser

end CraySim
