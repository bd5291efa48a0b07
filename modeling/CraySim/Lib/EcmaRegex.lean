/-
  Subject:   Regular expressions that are matched by backtracking, as those of ECMAScript.

  An expression is tried in a fixed order: the left alternative before the right one, one more round
  of a repetition before its end. What comes first in this order is the match. A round of a
  repetition that takes nothing does not count.

  * `Regex`, `ends` -- expressions, and where they may end, in the order they are tried,
  * `search`, `replace` -- the leftmost match, and all of them replaced,
  * `suffix_ends` -- an expression ends in what it has begun with,
  * `Consumes` -- an expression that does not match nothing,
  * `search_bol` -- an expression that is bound to the beginning is matched there.
-/
import Mathlib.Data.List.Infix

namespace EcmaRegex

variable {α : Type}

/-- Regular expressions over characters of some type. -/
inductive Regex (α : Type) where
  /-- A character of a class. -/
  | char (p : α → Bool)
  | seq (a b : Regex α)
  | alt (a b : Regex α)
  /-- Any number of rounds, as many as possible. -/
  | star (a : Regex α)
  /-- `^`: the beginning of what is searched. -/
  | bol
  /-- `$`: its end, or the place in front of a character of a class. -/
  | eol (p : α → Bool)

namespace Regex

/-- One round or more. -/
def plus (a : Regex α) : Regex α := seq a (star a)

/-! ## 1. Where an expression ends -/

/-- The rounds of a repetition; the number of characters bounds them. -/
def starEnds (f : List α → List (List α)) : Nat → List α → List (List α)
  | 0, cs => [cs]
  | fuel + 1, cs =>
    ((f cs).filter fun rest => rest.length < cs.length).flatMap (starEnds f fuel) ++ [cs]

/-- What is left behind an expression that starts in front of some characters, for every way to
    match it, in the order they are tried. `total` is the length of what is searched. -/
def ends (total : Nat) : Regex α → List α → List (List α)
  | char _, [] => []
  | char p, c :: cs => if p c then [cs] else []
  | seq a b, cs => (ends total a cs).flatMap (ends total b)
  | alt a b, cs => ends total a cs ++ ends total b cs
  | star a, cs => starEnds (ends total a) cs.length cs
  | bol, cs => if cs.length = total then [cs] else []
  | eol p, cs => if cs.head?.all p then [cs] else []

/-- The match at one place: what is left behind it. -/
def matchAt (total : Nat) (r : Regex α) (cs : List α) : Option (List α) := (ends total r cs).head?

/-- The places where a match may start, from left to right. -/
def searchFrom (total : Nat) (r : Regex α) : List α → Option (List α × List α)
  | [] => (matchAt total r []).map fun rest => ([], rest)
  | c :: cs =>
    match matchAt total r (c :: cs) with
    | some rest => some (c :: cs, rest)
    | none => searchFrom total r cs

/-- `regex_search`: from where on the leftmost match is, and what is left behind it. -/
def search (r : Regex α) (cs : List α) : Option (List α × List α) := searchFrom cs.length r cs

/-- `regex_replace` with a fixed text, for expressions that take something. -/
def replaceFrom (total : Nat) (r : Regex α) (text : List α) : Nat → List α → List α
  | 0, cs => cs
  | _ + 1, [] => []
  | fuel + 1, c :: cs =>
    match matchAt total r (c :: cs) with
    | some rest => text ++ replaceFrom total r text fuel rest
    | none => c :: replaceFrom total r text fuel cs

def replace (r : Regex α) (text cs : List α) : List α :=
  replaceFrom cs.length r text cs.length cs

/-! ## 2. What is left -/

section ends
variable {total fuel : Nat} {r a b : Regex α} {p : α → Bool} {cs rest : List α}

theorem ends_seq : ends total (seq a b) cs = (ends total a cs).flatMap (ends total b) := rfl

theorem ends_alt : ends total (alt a b) cs = ends total a cs ++ ends total b cs := rfl

theorem ends_char_nil : ends total (char p) [] = [] := rfl

theorem ends_char_cons {c : α} : ends total (char p) (c :: cs) = if p c then [cs] else [] := rfl

theorem ends_bol : ends total bol cs = if cs.length = total then [cs] else [] := rfl

theorem ends_eol : ends total (eol p) cs = if cs.head?.all p then [cs] else [] := rfl

theorem starEnds_succ {f : List α → List (List α)} : starEnds f (fuel + 1) cs =
    ((f cs).filter fun rest => rest.length < cs.length).flatMap (starEnds f fuel) ++ [cs] := rfl

theorem suffix_starEnds {f : List α → List (List α)} (hf : ∀ cs rest, rest ∈ f cs → rest <:+ cs)
    (h : rest ∈ starEnds f fuel cs) : rest <:+ cs := by
  induction fuel generalizing cs with
  | zero =>
    rw [List.mem_singleton.mp h]
  | succ fuel ih =>
    rcases List.mem_append.mp h with hround | hlast
    · obtain ⟨next, hnext, hrest⟩ := List.mem_flatMap.mp hround
      exact (ih hrest).trans (hf cs next (List.mem_filter.mp hnext).1)
    · rw [List.mem_singleton.mp hlast]

/-- What is left is what the characters end with. -/
theorem suffix_ends (h : rest ∈ ends total r cs) : rest <:+ cs := by
  induction r generalizing cs rest with
  | char p =>
    cases cs with
    | nil => exact absurd h List.not_mem_nil
    | cons c cs =>
      rw [ends_char_cons] at h
      split at h
      · rw [List.mem_singleton.mp h]
        exact List.suffix_cons c cs
      · exact absurd h List.not_mem_nil
  | seq a b iha ihb =>
    obtain ⟨mid, hmid, hrest⟩ := List.mem_flatMap.mp h
    exact (ihb hrest).trans (iha hmid)
  | alt a b iha ihb =>
    rcases List.mem_append.mp h with hleft | hright
    · exact iha hleft
    · exact ihb hright
  | star a iha => exact suffix_starEnds (fun cs rest hrest => iha hrest) h
  | bol =>
    rw [ends_bol] at h
    split at h
    · rw [List.mem_singleton.mp h]
    · exact absurd h List.not_mem_nil
  | eol p =>
    rw [ends_eol] at h
    split at h
    · rw [List.mem_singleton.mp h]
    · exact absurd h List.not_mem_nil

/-- An expression that takes a character at least. -/
def Consumes (r : Regex α) : Prop :=
  ∀ total cs rest, rest ∈ ends total r cs → rest.length < cs.length

theorem consumes_char : Consumes (char p) := by
  intro total cs rest h
  cases cs with
  | nil => exact absurd h List.not_mem_nil
  | cons c cs =>
    rw [ends_char_cons] at h
    split at h
    · rw [List.mem_singleton.mp h]
      exact Nat.lt_succ_self _
    · exact absurd h List.not_mem_nil

theorem consumes_seq_left (h : Consumes a) : Consumes (seq a b) := by
  intro total cs rest hrest
  obtain ⟨mid, hmid, hrest⟩ := List.mem_flatMap.mp hrest
  exact Nat.lt_of_le_of_lt (suffix_ends hrest).length_le (h total cs mid hmid)

theorem consumes_plus (h : Consumes a) : Consumes (plus a) := consumes_seq_left h

/-- The rounds over a class take characters of it. -/
theorem chars_of_star (h : rest ∈ ends total (star (char p)) cs) :
    ∃ text, cs = text ++ rest ∧ ∀ c ∈ text, p c = true := by
  have hrounds : ∀ fuel cs rest, rest ∈ starEnds (ends total (char p)) fuel cs →
      ∃ text, cs = text ++ rest ∧ ∀ c ∈ text, p c = true := by
    intro fuel
    induction fuel with
    | zero =>
      intro cs rest h
      exact ⟨[], by rw [List.mem_singleton.mp h, List.nil_append], fun c hc => absurd hc List.not_mem_nil⟩
    | succ fuel ih =>
      intro cs rest h
      rcases List.mem_append.mp h with hround | hlast
      · obtain ⟨next, hnext, hrest⟩ := List.mem_flatMap.mp hround
        obtain ⟨text, rfl, htext⟩ := ih next rest hrest
        cases cs with
        | nil => exact absurd (List.mem_filter.mp hnext).1 List.not_mem_nil
        | cons c cs =>
          have hchar := (List.mem_filter.mp hnext).1
          rw [ends_char_cons] at hchar
          split at hchar
          · next hc =>
            refine ⟨c :: text, ?_, fun x hx => ?_⟩
            · rw [← List.mem_singleton.mp hchar, List.cons_append]
            · rcases List.mem_cons.mp hx with rfl | hx
              · exact hc
              · exact htext x hx
          · exact absurd hchar List.not_mem_nil
      · exact ⟨[], by rw [List.mem_singleton.mp hlast, List.nil_append],
          fun c hc => absurd hc List.not_mem_nil⟩
  exact hrounds cs.length cs rest h

theorem chars_of_plus (h : rest ∈ ends total (plus (char p)) cs) :
    ∃ text, cs = text ++ rest ∧ ∀ c ∈ text, p c = true := by
  obtain ⟨mid, hmid, hrest⟩ := List.mem_flatMap.mp h
  obtain ⟨text, rfl, htext⟩ := chars_of_star hrest
  cases cs with
  | nil => exact absurd hmid List.not_mem_nil
  | cons c cs =>
    rw [ends_char_cons] at hmid
    split at hmid
    · next hc =>
      refine ⟨c :: text, ?_, fun x hx => ?_⟩
      · rw [← List.mem_singleton.mp hmid, List.cons_append]
      · rcases List.mem_cons.mp hx with rfl | hx
        · exact hc
        · exact htext x hx
    · exact absurd hmid List.not_mem_nil

/-! ## 3. Searching -/

theorem searchFrom_nil : searchFrom total r [] = (matchAt total r []).map fun rest => ([], rest) :=
  rfl

theorem searchFrom_cons {c : α} : searchFrom total r (c :: cs) =
    match matchAt total r (c :: cs) with
    | some rest => some (c :: cs, rest)
    | none => searchFrom total r cs := rfl

/-- Behind the beginning nothing is found that is bound to it. -/
theorem searchFrom_bol (h : cs.length < total) : searchFrom total (seq bol r) cs = none := by
  have hnone : ∀ cs : List α, cs.length < total → matchAt total (seq bol r) cs = none := by
    intro cs hlt
    have hbol : ends total (bol : Regex α) cs = [] := by
      rw [ends_bol, if_neg (Nat.ne_of_lt hlt)]
    rw [matchAt, ends_seq, hbol]
    rfl
  induction cs with
  | nil =>
    rw [searchFrom_nil, hnone [] h]
    rfl
  | cons c cs ih =>
    rw [searchFrom_cons, hnone _ h]
    exact ih (Nat.lt_of_succ_lt h)

/-- What is bound to the beginning is matched there or nowhere. -/
theorem search_bol : search (seq bol r) cs = (matchAt cs.length r cs).map fun rest => (cs, rest) := by
  have hbol : ends cs.length (bol : Regex α) cs = [cs] := by
    rw [ends_bol, if_pos rfl]
  have hmatch : matchAt cs.length (seq bol r) cs = matchAt cs.length r cs := by
    rw [matchAt, ends_seq, hbol, List.flatMap_singleton, matchAt]
  cases cs with
  | nil => rw [search, searchFrom_nil, hmatch]
  | cons c cs =>
    rw [search, searchFrom_cons, hmatch]
    cases matchAt (c :: cs).length r (c :: cs) with
    | some rest => rfl
    | none =>
      dsimp only [Option.map]
      exact searchFrom_bol (Nat.lt_succ_self _)

theorem replaceFrom_cons {text : List α} {c : α} : replaceFrom total r text (fuel + 1) (c :: cs) =
    match matchAt total r (c :: cs) with
    | some rest => text ++ replaceFrom total r text fuel rest
    | none => c :: replaceFrom total r text fuel cs := rfl

theorem mem_of_matchAt (h : matchAt total r cs = some rest) : rest ∈ ends total r cs :=
  List.mem_of_mem_head? h

end ends

end Regex

end EcmaRegex
