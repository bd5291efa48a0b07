/-
  Subject:   The files of a host and the streams that are opened on them by name.

  Other than in `FileStream`, the files are there without a stream, and several streams share them.
  A failed `open` leaves what was opened before. While a flag is set nothing is read or written.

  * `Files`, `HostStream` -- the files, and a `std::fstream`,
  * `openFile`, `close`, `put`, `get` -- what is done to it,
  * `appending`, `readingAt` -- a stream in use, and what the operations do there.
-/
import CraySim.Lib.FileStream
import Mathlib.Logic.Function.Basic

namespace HostFiles

open ByteFile (window)

/-- The contents of the files that exist. -/
abbrev Files (P : Type) := P → Option (List (BitVec 8))

/-- What a stream is opened for; `output` truncates, `append` does not. -/
inductive OpenMode where
  | input
  | output
  | append
  deriving DecidableEq, Repr

structure HostStream (P : Type) where
  opened : Option (P × OpenMode)
  pos : Nat
  eofbit : Bool
  failbit : Bool
  badbit : Bool
  deriving DecidableEq

variable {P : Type}

namespace HostStream

/-! ## 1. Operations -/

/-- A stream that was not used. -/
def fresh : HostStream P := ⟨none, 0, false, false, false⟩

def good (s : HostStream P) : Bool := !s.eofbit && !s.failbit && !s.badbit

/-- The bytes that are there to be read. -/
def unread (s : HostStream P) (fs : Files P) (n : Nat) : List (BitVec 8) :=
  match s.opened with
  | some (path, .input) => window ((fs path).getD []) s.pos n
  | _ => []

/-- `read` of at least one byte. -/
def get (n : Nat) (s : HostStream P) (fs : Files P) : List (BitVec 8) × HostStream P :=
  if s.good then
    if (unread s fs n).length < n then
      (unread s fs n,
        { s with pos := s.pos + (unread s fs n).length, eofbit := true, failbit := true })
    else (unread s fs n, { s with pos := s.pos + n })
  else ([], { s with failbit := true })

variable [DecidableEq P]

/-- `open`. -/
def openFile (path : P) (mode : OpenMode) (s : HostStream P) (fs : Files P) :
    HostStream P × Files P :=
  if s.opened.isSome then ({ s with failbit := true }, fs)
  else match mode with
    | .input =>
      if (fs path).isSome then (⟨some (path, .input), 0, false, false, false⟩, fs)
      else ({ s with failbit := true }, fs)
    | .output =>
      (⟨some (path, .output), 0, false, false, false⟩, Function.update fs path (some []))
    | .append =>
      (⟨some (path, .append), 0, false, false, false⟩,
        Function.update fs path (some ((fs path).getD [])))

/-- `write` of at least one byte. -/
def put (bs : List (BitVec 8)) (s : HostStream P) (fs : Files P) : HostStream P × Files P :=
  if s.good then
    match s.opened with
    | some (path, .output) =>
      ({ s with pos := s.pos + bs.length },
        Function.update fs path (some (FileStream.putBytes ((fs path).getD []) s.pos bs)))
    | some (path, .append) =>
      (s, Function.update fs path (some ((fs path).getD [] ++ bs)))
    | _ => ({ s with badbit := true }, fs)
  else (s, fs)

/-! ## 2. A stream in use -/

/-- A stream that has read `n` bytes, and perhaps tried to read more. -/
def readingAt (path : P) (n : Nat) (ended : Bool) : HostStream P :=
  ⟨some (path, .input), n, ended, ended, false⟩

/-- A stream that appends. -/
def appending (path : P) : HostStream P := ⟨some (path, .append), 0, false, false, false⟩

section inUse
variable {s : HostStream P} {fs : Files P} {path : P} {f bs : List (BitVec 8)}

theorem openFile_append (hf : fs path = some f) :
    openFile path .append fresh fs = (appending path, fs) := by
  have hsame : Function.update fs path (some ((fs path).getD [])) = fs := by
    rw [hf, Option.getD_some, ← hf, Function.update_eq_self]
  have hfresh : ¬ (fresh : HostStream P).opened.isSome = true := Bool.false_ne_true
  rw [openFile, if_neg hfresh]
  simp only [hsame]
  rfl

/-- **Appending appends.** -/
theorem put_appending (hf : fs path = some f) :
    put bs (appending path) fs =
      (appending path, Function.update fs path (some (f ++ bs))) := by
  have hgood : (appending path).good = true := rfl
  rw [put, if_pos hgood, appending]
  dsimp only
  rw [hf, Option.getD_some]

theorem openFile_input (hf : fs path = some f) :
    openFile path .input fresh fs = (readingAt path 0 false, fs) := by
  have hfresh : ¬ (fresh : HostStream P).opened.isSome = true := Bool.false_ne_true
  have hsome : (fs path).isSome = true := by rw [hf, Option.isSome_some]
  rw [openFile, if_neg hfresh]
  simp only [if_pos hsome]
  rfl

omit [DecidableEq P] in
/-- **Reading goes on** where it was, to the end of the file. -/
theorem get_readingAt {n pos : Nat} (hf : fs path = some f) :
    get n (readingAt path pos false) fs = ((f.drop pos).take n,
      readingAt path (pos + min n (f.length - pos)) (decide (f.length - pos < n))) := by
  have hunread : unread (readingAt path pos false) fs n = (f.drop pos).take n := by
    show window ((fs path).getD []) pos n = _
    rw [hf]
    rfl
  have hlen : ((f.drop pos).take n).length = min n (f.length - pos) := by
    rw [List.length_take, List.length_drop]
  have hgood : (readingAt path pos false).good = true := rfl
  rw [get, if_pos hgood, hunread, hlen]
  by_cases hshort : f.length - pos < n
  · rw [if_pos (by omega), decide_eq_true hshort]
    rfl
  · rw [if_neg (by omega), decide_eq_false hshort, Nat.min_eq_left (by omega)]
    rfl

end inUse

/-! ## 3. A stream that is of no use -/

end HostStream

end HostFiles
