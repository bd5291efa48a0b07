/-
  Subject:   Sequences of items, one behind the other in a file.

  Every item has its bytes; the file is their concatenation. Nothing is assumed of the items.

  * `image`, `marks` -- the bytes of all items, and the position of each of them,
  * `exists_of_mem_marks` -- what is before an item and behind it,
  * `exists_mark_of_mul` -- items that do not cross a block boundary start at every one.
-/
import Mathlib.Data.List.Induction
import Mathlib.Tactic.Linarith

namespace Framed

variable {ι β : Type} (enc : ι → List β)

/-- The bytes of a sequence of items. -/
def image (xs : List ι) : List β := xs.flatMap enc

/-- The items with their positions, the first of them at `p`. -/
def marks : Nat → List ι → List (Nat × ι)
  | _, [] => []
  | p, x :: xs => (p, x) :: marks (p + (enc x).length) xs

@[simp] theorem image_nil : image enc [] = [] := rfl

@[simp] theorem image_cons (x : ι) (xs : List ι) : image enc (x :: xs) = enc x ++ image enc xs :=
  List.flatMap_cons

@[simp] theorem image_append (xs ys : List ι) :
    image enc (xs ++ ys) = image enc xs ++ image enc ys :=
  List.flatMap_append

theorem marks_cons (p : Nat) (x : ι) (xs : List ι) :
    marks enc p (x :: xs) = (p, x) :: marks enc (p + (enc x).length) xs := rfl

theorem marks_append (p : Nat) (xs ys : List ι) :
    marks enc p (xs ++ ys) = marks enc p xs ++ marks enc (p + (image enc xs).length) ys := by
  induction xs generalizing p with
  | nil => rfl
  | cons x xs ih =>
    rw [List.cons_append, marks_cons, marks_cons, ih, image_cons, List.length_append,
      List.cons_append, Nat.add_assoc]

theorem map_snd_marks (p : Nat) (xs : List ι) : (marks enc p xs).map Prod.snd = xs := by
  induction xs generalizing p with
  | nil => rfl
  | cons x xs ih => rw [marks_cons, List.map_cons, ih]

variable {enc}

/-- Items that have bytes are no more than the bytes of the file. -/
theorem length_le_length_image (h : ∀ x, 0 < (enc x).length) (xs : List ι) :
    xs.length ≤ (image enc xs).length := by
  induction xs with
  | nil => exact Nat.le_refl _
  | cons x xs ih =>
    have hx := h x
    rw [image_cons, List.length_append, List.length_cons]
    omega

/-- An item stands behind the bytes of the items before it. -/
theorem exists_of_mem_marks {p q : Nat} {x : ι} {xs : List ι} (h : (q, x) ∈ marks enc p xs) :
    ∃ pre post, xs = pre ++ x :: post ∧ q = p + (image enc pre).length := by
  induction xs generalizing p with
  | nil => exact absurd h List.not_mem_nil
  | cons y xs ih =>
    rcases List.mem_cons.1 h with heq | hmem
    · obtain ⟨rfl, rfl⟩ := Prod.mk.inj heq
      exact ⟨[], xs, rfl, rfl⟩
    · obtain ⟨pre, post, rfl, rfl⟩ := ih hmem
      exact ⟨y :: pre, post, rfl, by rw [image_cons, List.length_append, Nat.add_assoc]⟩

/-- **Block starts.** When no item crosses a multiple of `b`, every multiple of `b` in the file
    is the position of an item. -/
theorem exists_mark_of_mul {b p k : Nat} {xs : List ι}
    (h : ∀ m ∈ marks enc p xs, m.1 % b + (enc m.2).length ≤ b) (hp : p ≤ b * k)
    (hk : b * k < p + (image enc xs).length) : ∃ x, (b * k, x) ∈ marks enc p xs := by
  induction xs generalizing p with
  | nil => exact absurd hk (by simpa using hp)
  | cons x xs ih =>
    rcases Nat.eq_or_lt_of_le hp with heq | hlt
    · exact ⟨x, heq ▸ List.mem_cons_self⟩
    · -- the item ends at the boundary at the latest
      have hfit : p % b + (enc x).length ≤ b := h (p, x) List.mem_cons_self
      have hquot : p / b + 1 ≤ k := Nat.div_lt_of_lt_mul hlt
      have hend : p + (enc x).length ≤ b * k := by
        have hsplit : b * (p / b) + p % b = p := Nat.div_add_mod p b
        have hmul : b * (p / b + 1) ≤ b * k := Nat.mul_le_mul_left b hquot
        rw [Nat.mul_add, Nat.mul_one] at hmul
        omega
      rw [image_cons, List.length_append, ← Nat.add_assoc] at hk
      obtain ⟨y, hy⟩ := ih (fun m hm => h m (List.mem_cons_of_mem _ hm)) hend hk
      exact ⟨y, List.mem_cons_of_mem _ hy⟩

end Framed
