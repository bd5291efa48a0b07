/-
  Subject:   A file opened for reading and writing, as `std::fstream` presents it.

  One position serves reading and writing. A read that finds too few bytes sets the end flag and
  the failure flag; while one of them is set nothing is read. Seeking takes back the end flag only.

  * `FileStream` -- the file, the position and the flags,
  * `read`, `seekTo`, `tell`, `write` -- what they do to it,
  * `ready` -- an open file without flags, and what the operations do there,
  * `read_disk`, …, `close_disk` -- the operations that leave the file as it is.
-/
import CraySim.Lib.ByteFile

open ByteFile

/-- A file, if there is one, and the stream on it. -/
structure FileStream where
  disk : Option (List (BitVec 8))
  isOpen : Bool
  pos : Nat
  eofbit : Bool
  failbit : Bool
  deriving DecidableEq, Repr

namespace FileStream

/-! ## 1. Operations -/

def content (s : FileStream) : List (BitVec 8) := s.disk.getD []

def good (s : FileStream) : Bool := !s.eofbit && !s.failbit

/-- `read`: the bytes read, fewer than asked for at the end of the file. -/
def read (n : Nat) (s : FileStream) : List (BitVec 8) × FileStream :=
  if s.good then
    let got := if s.isOpen then window s.content s.pos n else []
    if got.length < n then
      (got, { s with pos := s.pos + got.length, eofbit := true, failbit := true })
    else (got, { s with pos := s.pos + n })
  else ([], { s with failbit := true })

/-- `seekg` to a position from the beginning. -/
def seekTo (target : Int) (s : FileStream) : FileStream :=
  if s.failbit then { s with eofbit := false }
  else if s.isOpen && 0 ≤ target then { s with eofbit := false, pos := target.toNat }
  else { s with eofbit := false, failbit := true }

/-- `seekg` from the current position. -/
def seekBy (off : Int) (s : FileStream) : FileStream := seekTo (s.pos + off) s

/-- `seekp`: the end flag stays. -/
def seekPut (target : Int) (s : FileStream) : FileStream :=
  if s.failbit then s
  else if s.isOpen && 0 ≤ target then { s with pos := target.toNat }
  else { s with failbit := true }

/-- `tellg`, or -1. -/
def tell (s : FileStream) : Int × FileStream :=
  if s.good then (if s.isOpen then s.pos else -1, s) else (-1, { s with failbit := true })

/-- `tellp`, or -1. -/
def tellPut (s : FileStream) : Int := if !s.failbit && s.isOpen then s.pos else -1

/-- A file with bytes put over it, longer than before if they reach behind its end. -/
def putBytes (file : List (BitVec 8)) (pos : Nat) (bs : List (BitVec 8)) : List (BitVec 8) :=
  if bs = [] then file
  else file.take pos ++ List.replicate (pos - file.length) 0 ++ bs ++ file.drop (pos + bs.length)

def write (bs : List (BitVec 8)) (s : FileStream) : FileStream :=
  if s.good && s.isOpen then
    { s with disk := some (putBytes s.content s.pos bs), pos := s.pos + bs.length }
  else { s with failbit := true }

/-- `clear`. -/
def clearFlags (s : FileStream) : FileStream := { s with eofbit := false, failbit := false }

/-- `open` of a file that has to exist, for reading and writing. -/
def openFile (s : FileStream) : FileStream :=
  if s.isOpen || s.disk.isNone then { s with failbit := true }
  else { s with isOpen := true, pos := 0, eofbit := false, failbit := false }

/-- `open` for writing only: the file is empty afterwards. -/
def create (s : FileStream) : FileStream :=
  if s.isOpen then { s with failbit := true }
  else { disk := some [], isOpen := true, pos := 0, eofbit := false, failbit := false }

def close (s : FileStream) : FileStream :=
  if s.isOpen then { s with isOpen := false } else { s with failbit := true }

/-- `resize_file`, which does not go through the stream. -/
def resize (n : Nat) (s : FileStream) : FileStream :=
  { s with disk := s.disk.map fun file => file.take n ++ List.replicate (n - file.length) 0 }

/-! ## 2. An open file without flags -/

/-- The stream on `file`, at `pos`. -/
def ready (file : List (BitVec 8)) (pos : Nat) : FileStream :=
  { disk := some file, isOpen := true, pos := pos, eofbit := false, failbit := false }

/-- The stream on `file` after a read behind its end. -/
def ended (file : List (BitVec 8)) : FileStream :=
  { disk := some file, isOpen := true, pos := file.length, eofbit := true, failbit := true }

section ready
variable {file bs : List (BitVec 8)} {pos n : Nat}

theorem read_ready (h : pos + n ≤ file.length) :
    read n (ready file pos) = (window file pos n, ready file (pos + n)) := by
  have hlen : (window file pos n).length = n := by
    rw [length_window]
    omega
  simp [read, ready, good, content, hlen]

theorem good_read_short (hn : 0 < n) (h : file.length < pos + n) :
    (read n (ready file pos)).2.good = false := by
  have hlen : (window file pos n).length < n := by
    rw [length_window]
    omega
  simp [read, ready, good, content, hlen]

theorem read_stands (h : Stands file pos bs) (hn : bs.length = n) :
    read n (ready file pos) = (bs, ready file (pos + n)) := by
  subst hn
  rw [read_ready h.le_length, h.window_eq]

/-- Reading the rest of the file, and asking for more. -/
theorem read_rest (hpos : pos ≤ file.length) (h : file.length < pos + n) :
    read n (ready file pos) = (file.drop pos, ended file) := by
  have hwindow : window file pos n = file.drop pos :=
    List.take_of_length_le (by rw [List.length_drop]; omega)
  have hshort : file.length - pos < n := by omega
  have hend : pos + (file.length - pos) = file.length := by omega
  simp [read, ready, good, content, hwindow, hshort, hend, ended]

theorem read_end (hn : 0 < n) : read n (ready file file.length) = ([], ended file) := by
  rw [read_rest (Nat.le_refl _) (by omega), List.drop_length]

@[simp] theorem read_ended : read n (ended file) = ([], ended file) := by
  simp [read, ended, good]

@[simp] theorem seekTo_ready (k : Nat) : seekTo k (ready file pos) = ready file k := by
  simp [seekTo, ready]

theorem seekBy_ready {off : Int} {k : Nat} (h : (pos : Int) + off = k) :
    seekBy off (ready file pos) = ready file k := by
  rw [seekBy]
  exact h ▸ seekTo_ready k

@[simp] theorem seekPut_ready (k : Nat) : seekPut k (ready file pos) = ready file k := by
  simp [seekPut, ready]

@[simp] theorem seekTo_ready_zero : seekTo 0 (ready file pos) = ready file 0 := seekTo_ready 0

@[simp] theorem seekPut_ready_zero : seekPut 0 (ready file pos) = ready file 0 := seekPut_ready 0

@[simp] theorem tell_ready : tell (ready file pos) = ((pos : Int), ready file pos) := by
  simp [tell, ready, good]

@[simp] theorem tell_ended : tell (ended file) = (-1, ended file) := by
  simp [tell, ended, good]

@[simp] theorem tellPut_ready : tellPut (ready file pos) = pos := by
  simp [tellPut, ready]

@[simp] theorem clearFlags_ready : clearFlags (ready file pos) = ready file pos := rfl

@[simp] theorem clearFlags_ended : clearFlags (ended file) = ready file file.length := rfl

@[simp] theorem good_ready : (ready file pos).good = true := rfl

@[simp] theorem isOpen_ready : (ready file pos).isOpen = true := rfl

@[simp] theorem isOpen_ended : (ended file).isOpen = true := rfl

@[simp] theorem eofbit_ready : (ready file pos).eofbit = false := rfl

@[simp] theorem failbit_ready : (ready file pos).failbit = false := rfl

@[simp] theorem eofbit_ended : (ended file).eofbit = true := rfl

@[simp] theorem disk_ready : (ready file pos).disk = some file := rfl

@[simp] theorem disk_ended : (ended file).disk = some file := rfl

/-- Writing from any position on, also from one behind the end. -/
theorem write_ready_any (file : List (BitVec 8)) (pos : Nat) (bs : List (BitVec 8)) :
    write bs (ready file pos) = ready (putBytes file pos bs) (pos + bs.length) := by
  simp [write, ready, good, content]

theorem putBytes_append (file : List (BitVec 8)) (pos : Nat) (bs cs : List (BitVec 8)) :
    putBytes (putBytes file pos bs) (pos + bs.length) cs = putBytes file pos (bs ++ cs) := by
  by_cases hbs : bs = []
  · simp [hbs, putBytes]
  by_cases hcs : cs = []
  · simp [hcs, putBytes]
  have hfront : (file.take pos ++ List.replicate (pos - file.length) 0).length = pos := by
    rw [List.length_append, List.length_take, List.length_replicate]
    omega
  have hall : (file.take pos ++ List.replicate (pos - file.length) 0 ++ bs).length =
      pos + bs.length := by
    rw [List.length_append, hfront]
  have hpad : pos + bs.length -
      (file.take pos ++ List.replicate (pos - file.length) 0 ++ bs ++
        file.drop (pos + bs.length)).length = 0 := by
    rw [List.length_append, hall]
    omega
  have hne : bs ++ cs ≠ [] := by simp [hbs]
  rw [putBytes, if_neg hcs, putBytes, if_neg hbs, putBytes, if_neg hne, hpad,
    List.replicate_zero, List.append_nil, List.take_left' hall, List.drop_append, hall,
    List.drop_eq_nil_of_le (by omega), List.nil_append, List.drop_drop, List.length_append]
  have hsum : pos + bs.length + (pos + bs.length + cs.length - (pos + bs.length)) =
      pos + (bs.length + cs.length) := by omega
  rw [hsum]
  simp only [List.append_assoc]

/-- The bytes written stand where they were written. -/
theorem getElem?_putBytes_inside {k : Nat} (h : k < bs.length) :
    (putBytes file pos bs)[pos + k]? = bs[k]? := by
  have hne : bs ≠ [] := by
    rintro rfl
    exact absurd h (by simp)
  have hfront : (file.take pos ++ List.replicate (pos - file.length) 0).length = pos := by
    rw [List.length_append, List.length_take, List.length_replicate]
    omega
  rw [putBytes, if_neg hne, List.append_assoc _ bs, List.getElem?_append_right (by omega), hfront,
    Nat.add_sub_cancel_left, List.getElem?_append_left h]

theorem getElem?_putBytes_outside {i : Nat} {b : BitVec 8} (h : file[i]? = some b)
    (hi : i < pos ∨ pos + bs.length ≤ i) : (putBytes file pos bs)[i]? = some b := by
  have hlt : i < file.length := (List.getElem?_eq_some_iff.mp h).1
  by_cases hne : bs = []
  · rwa [putBytes, if_pos hne]
  have hfront : (file.take pos ++ List.replicate (pos - file.length) 0).length = pos := by
    rw [List.length_append, List.length_take, List.length_replicate]
    omega
  rw [putBytes, if_neg hne, List.append_assoc _ bs]
  rcases hi with hi | hi
  · rw [List.getElem?_append_left (by omega),
      List.getElem?_append_left (by rw [List.length_take]; omega), List.getElem?_take, if_pos hi, h]
  · rw [List.getElem?_append_right (by omega), hfront, List.getElem?_append_right (by omega),
      List.getElem?_drop]
    rwa [show pos + bs.length + (i - pos - bs.length) = i by omega]

theorem write_ready (h : pos ≤ file.length) :
    write bs (ready file pos) = ready (splice file pos bs) (pos + bs.length) := by
  have hput : putBytes file pos bs = splice file pos bs := by
    rw [putBytes]
    split
    · rename_i hnil
      rw [hnil, splice_nil]
    · rw [Nat.sub_eq_zero_of_le h, List.replicate_zero, List.append_nil, splice]
  simp [write, ready, good, content, hput]

theorem seekPut_seekTo_ready {k : Int} {m : Nat} (h : k = m) :
    seekPut k (seekTo k (ready file pos)) = ready file m := by
  rw [h, seekTo_ready, seekPut_ready]

/-- Closing the file, cutting it at a position and opening it again. -/
theorem openFile_resize (h : n ≤ file.length) :
    openFile (resize n (close (ready file pos))) = ready (file.take n) 0 := by
  simp [openFile, resize, close, ready, Nat.sub_eq_zero_of_le h]

end ready

/-! ## 3. What leaves the file as it is -/

section disk
variable (s : FileStream)

theorem read_disk (n : Nat) : (read n s).2.disk = s.disk := by
  rw [read]
  split
  · dsimp only
    generalize (if s.isOpen then window s.content s.pos n else []) = got
    split <;> rfl
  · rfl

theorem seekTo_disk (target : Int) : (seekTo target s).disk = s.disk := by
  rw [seekTo]
  split
  · rfl
  · split <;> rfl

theorem seekBy_disk (off : Int) : (seekBy off s).disk = s.disk := seekTo_disk s (s.pos + off)

theorem seekPut_disk (target : Int) : (seekPut target s).disk = s.disk := by
  rw [seekPut]
  split
  · rfl
  · split <;> rfl

theorem tell_disk : (tell s).2.disk = s.disk := by
  rw [tell]
  split <;> rfl

theorem openFile_disk : (openFile s).disk = s.disk := by
  rw [openFile]
  split <;> rfl

theorem close_disk : (close s).disk = s.disk := by
  rw [close]
  split <;> rfl

end disk

end FileStream
