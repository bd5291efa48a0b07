/-
  Subject:   A tape of records and file marks under a head.

  What a tape drive is for, whatever the tape is stored in: the head stands between two items, or
  in a record of which it has read a part.

  * `Item`, `Head` -- what is on the tape, and where the head is,
  * `next`, `prev`, `rewind` -- moving the head,
  * `read`, `write` -- moving data.
-/
import Mathlib.Data.List.Basic
import Mathlib.Data.List.Flatten

namespace Tape

/-- What stands on a tape. -/
inductive Item (α : Type) where
  | record (data : List α)
  | mark
  deriving DecidableEq, Repr

/-- The head of a tape: the items behind it, the nearest first, and the items in front of it; in
    a record, also the data behind it and in front of it. -/
inductive Head (α : Type) where
  | between (behind front : List (Item α))
  | inside (behind : List (Item α)) (done todo : List α) (front : List (Item α))
  deriving DecidableEq, Repr

variable {α : Type}

/-- The length of an item; a mark has none. -/
def Item.length : Item α → Nat
  | .record data => data.length
  | .mark => 0

def Item.isMark : Item α → Bool
  | .record _ => false
  | .mark => true

namespace Head

/-! ## 1. Operations -/

/-- All the items of the tape. -/
def items : Head α → List (Item α)
  | between behind front => behind.reverse ++ front
  | inside behind done todo front => behind.reverse ++ .record (done ++ todo) :: front

/-- To the end of the record, or over the next item. -/
def next : Head α → Head α
  | between behind [] => between behind []
  | between behind (x :: front) => between (x :: behind) front
  | inside behind done todo front => between (.record (done ++ todo) :: behind) front

/-- To the start of the record, or back over an item. -/
def prev : Head α → Head α
  | between [] front => between [] front
  | between (x :: behind) front => between behind (x :: front)
  | inside behind done todo front => between behind (.record (done ++ todo) :: front)

def rewind (h : Head α) : Head α := between [] h.items

/-- Reads up to `n` of `todo`. -/
def readFrom (n : Nat) (behind : List (Item α)) (done todo : List α) (front : List (Item α)) :
    List α × Head α :=
  if todo.length ≤ n then (todo, between (.record (done ++ todo) :: behind) front)
  else (todo.take n, inside behind (done ++ todo.take n) (todo.drop n) front)

/-- Reads up to `n` from the record the head is in, or in front of. A mark is passed. -/
def read (n : Nat) : Head α → List α × Head α
  | between behind [] => ([], between behind [])
  | between behind (.mark :: front) => ([], between (.mark :: behind) front)
  | between behind (.record data :: front) => readFrom n behind [] data front
  | inside behind done todo front => readFrom n behind done todo front

/-- Writes an item over the next one, or over the record the head is in. The items behind it stay
    if it takes the place of an item of the same length. -/
def write (x : Item α) : Head α → Head α
  | between behind [] => between (x :: behind) []
  | between behind (y :: front) => between (x :: behind) (if y.length = x.length then front else [])
  | inside behind _ _ _ => between (x :: behind) []

/-- Forward over the next mark, or to the end of the tape. -/
def overMark : List (Item α) → List (Item α) → Head α
  | behind, [] => between behind []
  | behind, .mark :: front => between (.mark :: behind) front
  | behind, .record data :: front => overMark (.record data :: behind) front

def nextMark : Head α → Head α
  | between behind front => overMark behind front
  | inside behind done todo front => overMark (.record (done ++ todo) :: behind) front

/-- Back over the mark behind, or to the start of the tape. -/
def backMark : List (Item α) → List (Item α) → Head α
  | [], front => between [] front
  | .mark :: behind, front => between behind (.mark :: front)
  | .record data :: behind, front => backMark behind (.record data :: front)

def prevMark : Head α → Head α
  | between behind front => backMark behind front
  | inside behind done todo front => backMark behind (.record (done ++ todo) :: front)

/-- Forward over `n` records; a mark that is met is passed and ends it, and so does the end of the
    tape. The records passed, and the head. -/
def spaceForward : Nat → Head α → Nat × Head α
  | 0, h => (0, h)
  | _ + 1, between behind [] => (0, between behind [])
  | _ + 1, between behind (.mark :: front) => (0, between (.mark :: behind) front)
  | n + 1, h => ((spaceForward n h.next).1 + 1, (spaceForward n h.next).2)

/-- Back over `n` records; a mark ends it, and so does the start of the tape. -/
def spaceBackward : Nat → Head α → Nat × Head α
  | 0, h => (0, h)
  | _ + 1, between [] front => (0, between [] front)
  | _ + 1, between (.mark :: behind) front => (0, between behind (.mark :: front))
  | n + 1, h => ((spaceBackward n h.prev).1 + 1, (spaceBackward n h.prev).2)

/-! ## 2. What is on the tape -/

theorem items_next (h : Head α) : h.next.items = h.items := by
  rcases h with ⟨behind, _ | ⟨x, front⟩⟩ | ⟨behind, done, todo, front⟩
  · rfl
  · simp [next, items]
  · simp [next, items]

theorem items_prev (h : Head α) : h.prev.items = h.items := by
  rcases h with ⟨_ | ⟨x, behind⟩, front⟩ | ⟨behind, done, todo, front⟩
  · rfl
  · simp [prev, items]
  · simp [prev, items]

theorem items_readFrom (n : Nat) (behind : List (Item α)) (done todo : List α)
    (front : List (Item α)) :
    (readFrom n behind done todo front).2.items =
      behind.reverse ++ .record (done ++ todo) :: front := by
  rw [readFrom]
  split
  · simp [items]
  · simp [items, List.append_assoc]

theorem items_read (n : Nat) (h : Head α) : (h.read n).2.items = h.items := by
  rcases h with ⟨behind, _ | ⟨data | _, front⟩⟩ | ⟨behind, done, todo, front⟩
  · rfl
  · exact items_readFrom n behind [] data front
  · simp [read, items]
  · exact items_readFrom n behind done todo front

/-- Writing brings nothing onto the tape but the item written. -/
theorem mem_items_write {x y : Item α} {h : Head α} (hy : y ∈ (h.write x).items) :
    y = x ∨ y ∈ h.items := by
  rcases h with ⟨behind, _ | ⟨z, front⟩⟩ | ⟨behind, done, todo, front⟩
  · simp only [write, items, List.mem_append, List.mem_reverse, List.mem_cons] at hy ⊢
    tauto
  · simp only [write, items, List.mem_append, List.mem_reverse, List.mem_cons] at hy ⊢
    split at hy
    · tauto
    · rcases hy with hy | hy
      · tauto
      · exact absurd hy List.not_mem_nil
  · simp only [write, items, List.mem_append, List.mem_reverse, List.mem_cons] at hy ⊢
    tauto

/-- What holds of every item holds after a write, if it holds of the item written. -/
theorem forall_items_write {P : Item α → Prop} {x : Item α} {h : Head α} (hx : P x)
    (hall : ∀ y ∈ h.items, P y) : ∀ y ∈ (h.write x).items, P y := by
  intro y hy
  rcases mem_items_write hy with rfl | hy
  · exact hx
  · exact hall y hy

/-! ## 3. Files -/

/-- The marks behind the head. -/
def fileIdx : Head α → Nat
  | between behind _ => behind.countP Item.isMark
  | inside behind _ _ _ => behind.countP Item.isMark

/-- The data since the last mark. -/
def dataSinceMark : List (Item α) → Nat
  | [] => 0
  | .mark :: _ => 0
  | .record data :: behind => dataSinceMark behind + data.length

/-- The data of the file behind the head. -/
def fileOfs : Head α → Nat
  | between behind _ => dataSinceMark behind
  | inside behind done _ _ => dataSinceMark behind + done.length

/-- The sizes of the files that end with a mark, if the first of them has `n` before it. -/
def fileSizes : Nat → List (Item α) → List Nat
  | _, [] => []
  | n, .mark :: xs => n :: fileSizes 0 xs
  | n, .record data :: xs => fileSizes (n + data.length) xs

end Head

/-! ## 4. Tapes of files -/

section files
variable {file : List (List α)} {files files' : List (List (List α))}

/-- A file on a tape: its records and the mark behind them. -/
def fileItems (file : List (List α)) : List (Item α) := file.map .record ++ [.mark]

def ofFiles (files : List (List (List α))) : List (Item α) := files.flatMap fileItems

@[simp] theorem ofFiles_nil : ofFiles ([] : List (List (List α))) = [] := rfl

@[simp] theorem ofFiles_cons : ofFiles (file :: files) = fileItems file ++ ofFiles files := rfl

@[simp] theorem ofFiles_append : ofFiles (files ++ files') = ofFiles files ++ ofFiles files' :=
  List.flatMap_append

theorem length_fileItems (file : List (List α)) : (fileItems file).length = file.length + 1 := by
  rw [fileItems, List.length_append, List.length_map, List.length_singleton]

theorem ofFiles_ne_nil (h : files ≠ []) : ofFiles files ≠ [] := by
  cases files with
  | nil => exact absurd rfl h
  | cons file files => simp [fileItems]

theorem length_ofFiles_le (h : files'.Sublist files) :
    (ofFiles files').length ≤ (ofFiles files).length :=
  (h.flatMap fileItems).length_le

end files

end Tape
