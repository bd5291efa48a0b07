/-
  Subject:   Streams with commands behind an escape symbol.

  Behind the escape symbol stands a second one, and both mean one of them as data; or a command of
  one symbol; or a command that takes one symbol more.

  * `Escapes`, `stripped` -- the commands of a stream, and its data,
  * `Phase`, `feed`, `scan` -- the same, one symbol after the other,
  * `scan_append` -- a scan goes on where it stopped,
  * `scan_eq_stripped` -- both say the same of every stream, wherever it is cut.
-/
import Mathlib.Logic.Basic

namespace EscapedStream

/-- The escape symbol, and the commands that take a symbol more. -/
structure Escapes (α : Type) where
  escape : α
  takesMore : α → Bool

variable {α : Type} [DecidableEq α] (e : Escapes α)

/-! ## 1. The data of a stream -/

def stripped : List α → List α
  | [] => []
  | a :: rest =>
    if a ≠ e.escape then a :: stripped rest
    else match rest with
      | [] => []
      | c :: rest =>
        if c = e.escape then c :: stripped rest
        else if e.takesMore c then
          match rest with
          | [] => []
          | _ :: rest => stripped rest
        else stripped rest

/-! ## 2. One symbol after the other -/

/-- What the next symbol is. -/
inductive Phase where
  | data
  | command
  | more
  deriving DecidableEq

/-- A symbol: the phase behind it, and the symbol where it is data. -/
def feed : Phase → α → Phase × Option α
  | .data, a => if a = e.escape then (.command, none) else (.data, some a)
  | .command, a =>
    if a = e.escape then (.data, some a)
    else if e.takesMore a then (.more, none)
    else (.data, none)
  | .more, _ => (.data, none)

def scan : Phase → List α → Phase × List α
  | p, [] => (p, [])
  | p, a :: rest =>
    let r := scan (feed e p a).1 rest
    (r.1, (feed e p a).2.toList ++ r.2)

@[simp] theorem scan_nil (p : Phase) : scan e p [] = (p, []) := rfl

theorem scan_append (p : Phase) (stream more : List α) :
    scan e p (stream ++ more) =
      ((scan e (scan e p stream).1 more).1,
        (scan e p stream).2 ++ (scan e (scan e p stream).1 more).2) := by
  induction stream generalizing p with
  | nil => rfl
  | cons b stream ih => simp [scan, ih]

/-- **The machine finds the data of the stream.** -/
theorem scan_eq_stripped (stream : List α) : (scan e .data stream).2 = stripped e stream := by
  fun_induction stripped e stream with
  | case1 => rfl
  | case2 a rest ha ih => simp [scan, feed, ha, ih]
  | case3 a ha =>
    obtain rfl := not_not.mp ha
    simp [scan, feed]
  | case4 a ha rest ih =>
    obtain rfl := not_not.mp ha
    simp [scan, feed, ih]
  | case5 a ha c hc hmore =>
    obtain rfl := not_not.mp ha
    simp [scan, feed, hc, hmore]
  | case6 a ha c hc hmore o rest ih =>
    obtain rfl := not_not.mp ha
    simp [scan, feed, hc, hmore, ih]
  | case7 a ha c rest hc hmore ih =>
    obtain rfl := not_not.mp ha
    simp [scan, feed, hc, hmore, ih]

end EscapedStream
