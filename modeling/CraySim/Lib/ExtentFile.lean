/-
  Subject:   Files in blocks of a store.

  A file is a list of blocks; its elements fill them one after the other. The blocks are noted as
  extents, runs of blocks with consecutive numbers: a new block makes the last run longer where it
  follows it, and begins a run of its own where it does not.

  * `Extent`, `blocks` -- runs of blocks, and the blocks of a list of runs,
  * `grow`, `blocks_grow` -- one block more,
  * `Holds` -- the blocks hold these elements,
  * `Holds.congr` -- stores that agree on the blocks,
  * `Holds.put` -- more elements behind the last one.
-/
import Mathlib.Data.List.Basic
import Mathlib.Data.List.Nodup
import Mathlib.Data.List.Perm.Subperm

namespace ExtentFile

/-! ## 1. Extents -/

/-- A run of blocks. -/
structure Extent where
  first : Nat
  cnt : Nat
  deriving DecidableEq, Repr

/-- Its blocks. -/
def Extent.blocks (e : Extent) : List Nat := List.range' e.first e.cnt

/-- The number behind it. -/
def Extent.next (e : Extent) : Nat := e.first + e.cnt

/-- The blocks of some runs. -/
def blocks (exts : List Extent) : List Nat := exts.flatMap Extent.blocks

variable {exts : List Extent} {e : Extent} {n : Nat}

theorem blocks_nil : blocks [] = [] := rfl

theorem blocks_cons (e : Extent) (exts : List Extent) :
    blocks (e :: exts) = e.blocks ++ blocks exts := List.flatMap_cons

theorem blocks_append (exts exts' : List Extent) :
    blocks (exts ++ exts') = blocks exts ++ blocks exts' := List.flatMap_append

theorem blocks_concat (exts : List Extent) (e : Extent) :
    blocks (exts ++ [e]) = blocks exts ++ e.blocks := by
  rw [blocks_append, blocks_cons, blocks_nil, List.append_nil]

theorem Extent.blocks_one (n : Nat) : (Extent.mk n 1).blocks = [n] := rfl

theorem Extent.blocks_longer (e : Extent) :
    ({ e with cnt := e.cnt + 1 } : Extent).blocks = e.blocks ++ [e.next] := by
  unfold Extent.blocks Extent.next
  rw [List.range'_concat, Nat.one_mul]

theorem Extent.length_blocks (e : Extent) : e.blocks.length = e.cnt := List.length_range'

/-- **One block more**: the last run is made longer where the block follows it. -/
def grow (exts : List Extent) (n : Nat) : List Extent :=
  match exts.getLast? with
  | none => [⟨n, 1⟩]
  | some e =>
    if e.next = n then exts.dropLast ++ [{ e with cnt := e.cnt + 1 }] else exts ++ [⟨n, 1⟩]

theorem grow_nil (n : Nat) : grow [] n = [⟨n, 1⟩] := rfl

theorem grow_merge (exts : List Extent) (e : Extent) :
    grow (exts ++ [e]) e.next = exts ++ [{ e with cnt := e.cnt + 1 }] := by
  unfold grow
  rw [List.getLast?_concat, List.dropLast_concat]
  exact if_pos rfl

theorem grow_add (exts : List Extent) (h : e.next ≠ n) :
    grow (exts ++ [e]) n = exts ++ [e] ++ [⟨n, 1⟩] := by
  unfold grow
  rw [List.getLast?_concat]
  exact if_neg h

theorem blocks_grow (exts : List Extent) (n : Nat) : blocks (grow exts n) = blocks exts ++ [n] := by
  rcases List.eq_nil_or_concat' exts with rfl | ⟨init, e, rfl⟩
  · rfl
  · by_cases h : e.next = n
    · subst h
      rw [grow_merge, blocks_concat, blocks_concat, e.blocks_longer, List.append_assoc]
    · rw [grow_add init h, blocks_concat, Extent.blocks_one]

theorem grow_pos (h : ∀ e ∈ exts, 0 < e.cnt) : ∀ e ∈ grow exts n, 0 < e.cnt := by
  rcases List.eq_nil_or_concat' exts with rfl | ⟨init, last, rfl⟩
  · intro e he
    rw [grow_nil, List.mem_singleton] at he
    rw [he]
    exact Nat.one_pos
  · by_cases hnext : last.next = n
    · subst hnext
      rw [grow_merge]
      intro e he
      rcases List.mem_append.mp he with hinit | hlast
      · exact h e (List.mem_append_left _ hinit)
      · rw [List.mem_singleton.mp hlast]
        exact Nat.succ_pos _
    · rw [grow_add init hnext]
      intro e he
      rcases List.mem_append.mp he with hold | hnew
      · exact h e hold
      · rw [List.mem_singleton.mp hnew]
        exact Nat.one_pos

/-- There are not more blocks than numbers for them. -/
theorem length_le_of_lt {bs : List Nat} (hnodup : bs.Nodup) (h : ∀ b ∈ bs, b < n) :
    bs.length ≤ n := by
  have hsub : bs.Subperm (List.range n) := hnodup.subperm fun b hb => List.mem_range.mpr (h b hb)
  have hle := hsub.length_le
  rw [List.length_range] at hle
  exact hle

/-! ## 2. Contents -/

variable {β : Type} {size : Nat} {store store' : Nat → Nat → β} {bs bs' : List Nat}
  {content data : List β}

/-- **The blocks hold these elements**, `size` in a block. -/
def Holds (size : Nat) (store : Nat → Nat → β) (bs : List Nat) (content : List β) : Prop :=
  ∀ k (h : k < content.length), ∃ b, bs[k / size]? = some b ∧ store b (k % size) = content[k]

theorem holds_nil (store : Nat → Nat → β) (bs : List Nat) : Holds size store bs [] :=
  fun _ h => absurd h (Nat.not_lt_zero _)

theorem Holds.congr (h : Holds size store bs content) (hsize : 0 < size)
    (hsame : ∀ b ∈ bs, ∀ o < size, store' b o = store b o) : Holds size store' bs content := by
  intro k hk
  obtain ⟨b, hb, heq⟩ := h k hk
  exact ⟨b, hb, (hsame b (List.mem_of_getElem? hb) _ (Nat.mod_lt _ hsize)).trans heq⟩

theorem Holds.more (h : Holds size store bs content) (bs' : List Nat) :
    Holds size store (bs ++ bs') content := by
  intro k hk
  obtain ⟨b, hb, heq⟩ := h k hk
  refine ⟨b, ?_, heq⟩
  rw [List.getElem?_append_left (List.getElem?_eq_some_iff.mp hb).1]
  exact hb

/-- **More elements behind the last one**, in the block the last one stands in or behind it. -/
theorem Holds.put (h : Holds size store bs content) (hsize : 0 < size) (hnodup : bs.Nodup)
    {b : Nat} (hb : bs[content.length / size]? = some b)
    (hfits : content.length % size + data.length ≤ size)
    (hother : ∀ b' ∈ bs, b' ≠ b → ∀ o < size, store' b' o = store b' o)
    (hfront : ∀ o < content.length % size, store' b o = store b o)
    (hdata : ∀ j (hj : j < data.length), store' b (content.length % size + j) = data[j]) :
    Holds size store' bs (content ++ data) := by
  intro k hk
  rw [List.length_append] at hk
  have hdiv := Nat.div_add_mod content.length size
  generalize content.length / size = q at hb hdiv
  generalize content.length % size = r at hfits hfront hdata hdiv
  by_cases hlt : k < content.length
  · obtain ⟨b', hb', heq⟩ := h k hlt
    refine ⟨b', hb', ?_⟩
    rw [List.getElem_append_left hlt, ← heq]
    by_cases hbb : b' = b
    · subst hbb
      have hpos : k / size = q :=
        (List.getElem?_inj (List.getElem?_eq_some_iff.mp hb').1 hnodup).mp (hb'.trans hb.symm)
      refine hfront _ ?_
      have hk' := Nat.div_add_mod k size
      rw [hpos] at hk'
      omega
    · exact hother b' (List.mem_of_getElem? hb') hbb _ (Nat.mod_lt _ hsize)
  · obtain ⟨j, rfl⟩ := Nat.exists_eq_add_of_le (Nat.le_of_not_lt hlt)
    have hj : j < data.length := by omega
    have hsplit : content.length + j = size * q + (r + j) := by omega
    refine ⟨b, ?_, ?_⟩
    · rw [hsplit, Nat.mul_add_div hsize, Nat.div_eq_of_lt (by omega), Nat.add_zero]
      exact hb
    · have hmod : (content.length + j) % size = r + j := by
        rw [hsplit, Nat.mul_add_mod, Nat.mod_eq_of_lt (by omega)]
      rw [hmod, hdata j hj, List.getElem_append_right (Nat.le_add_right _ _)]
      congr 1
      omega

end ExtentFile
