/-
  Subject:   A giver with a list of words and a taker that wants a number of them.

  Words pass while the giver has one and the taker wants one, into a ring of `size` cells. Each
  side hears when it is through: the giver when its list is exhausted, the taker when it has as
  many words as it wanted.

  * `State`, `transfer` -- the two sides, and everything that can pass at once,
  * `passOne`, `transfer_eq` -- the same, one word at a time,
  * `resting_transfer` -- after a transfer one of the sides has nothing to do,
  * `Event`, `follow` -- what the sides can ask for; every request is served at once,
  * `give` -- the lists of the giver, one after the other,
  * `follow_conserves` -- words pass whole and in order, as long as no list is withdrawn.
-/

namespace Rendezvous

variable {α : Type} {size : Nat}

/-! ## 1. The transfer -/

structure State (α : Type) where
  /-- What the giver has left. -/
  source : List α
  /-- How many words the taker still wants. -/
  wanted : Nat
  /-- Everything that passed, in order. -/
  passed : List α
  giverDone : Bool
  takerDone : Bool
  ring : Nat → α
  next : Nat

/-- The words `ws` in consecutive cells of the ring, from `a` on. -/
def place (size : Nat) (ring : Nat → α) (a : Nat) : List α → Nat → α
  | [] => ring
  | w :: ws => place size (fun i => if i = a then w else ring i) ((a + 1) % size) ws

/-- Everything that can pass passes. -/
def transfer (size : Nat) (l : State α) : State α :=
  let n := min l.source.length l.wanted
  { source := l.source.drop n
    wanted := l.wanted - n
    passed := l.passed ++ l.source.take n
    giverDone := l.giverDone || decide (n ≠ 0 ∧ n = l.source.length)
    takerDone := l.takerDone || decide (n ≠ 0 ∧ n = l.wanted)
    ring := place size l.ring l.next (l.source.take n)
    next := (l.next + n) % size }

/-- One side has nothing to do. -/
def Resting (l : State α) : Prop := l.source = [] ∨ l.wanted = 0

theorem resting_transfer (l : State α) : Resting (transfer size l) := by
  unfold Resting transfer
  rcases Nat.le_total l.source.length l.wanted with h | h
  · exact .inl (by simp [Nat.min_eq_left h])
  · exact .inr (by simp [Nat.min_eq_right h])

theorem transfer_of_resting {l : State α} (hl : l.next < size) (h : Resting l) :
    transfer size l = l := by
  have hmin : min l.source.length l.wanted = 0 := by
    rcases h with h | h
    · simp [h]
    · simp [h]
  unfold transfer
  simp [hmin, place, Nat.mod_eq_of_lt hl]

/-- One word passes. -/
def passOne (size : Nat) (w : α) (ws : List α) (k : Nat) (l : State α) : State α :=
  { source := ws
    wanted := k
    passed := l.passed ++ [w]
    giverDone := l.giverDone || ws.isEmpty
    takerDone := l.takerDone || decide (k = 0)
    ring := fun i => if i = l.next then w else l.ring i
    next := (l.next + 1) % size }

/-- A side with one word more is through one word later. -/
theorem through_succ {m n : Nat} (h : m ≤ n) :
    decide (m + 1 ≠ 0 ∧ m + 1 = n + 1) = (decide (n = 0) || decide (m ≠ 0 ∧ m = n)) := by
  rw [← Bool.decide_or, decide_eq_decide]
  omega

/-- A transfer, as its first word and the rest of it. -/
theorem transfer_eq {l : State α} {w : α} {ws : List α} {k : Nat} (hs : l.source = w :: ws)
    (hk : l.wanted = k + 1) : transfer size l = transfer size (passOne size w ws k l) := by
  rcases l with ⟨source, wanted, passed, giverDone, takerDone, ring, next⟩
  obtain rfl : source = w :: ws := hs
  obtain rfl : wanted = k + 1 := hk
  have hmin : min (w :: ws).length (k + 1) = min ws.length k + 1 := by
    rw [List.length_cons]
    omega
  have hgiver : decide (min ws.length k + 1 ≠ 0 ∧ min ws.length k + 1 = (w :: ws).length) =
      (ws.isEmpty || decide (min ws.length k ≠ 0 ∧ min ws.length k = ws.length)) := by
    rw [List.length_cons, through_succ (Nat.min_le_left _ _)]
    cases ws <;> rfl
  have htaker := through_succ (Nat.min_le_right ws.length k)
  have hnext : (next + (min ws.length k + 1)) % size =
      ((next + 1) % size + min ws.length k) % size := by
    rw [Nat.mod_add_mod]
    congr 1
    omega
  simp only [transfer, hmin, hgiver, htaker, hnext, passOne, List.take_succ_cons,
    List.drop_succ_cons, place, Nat.add_sub_add_right, Bool.or_assoc, List.append_assoc,
    List.singleton_append]

/-! ## 2. Requests -/

inductive Event (α : Type) where
  /-- The giver starts over with another list. -/
  | offer (ws : List α)
  /-- The giver changes what is left of its list. -/
  | revise (ws : List α)
  /-- The taker wants `n` words from cell `a` on. -/
  | want (n a : Nat)
  /-- The taker changes how many words it waits for; nothing happens if it does not wait. -/
  | rethink (n : Nat)
  /-- The giver takes note that it is through. -/
  | acknowledge
  | idle

/-- The state that answers a request, before anything passes. -/
def request : Event α → State α → State α
  | .offer ws, l => { l with source := ws }
  | .revise ws, l => { l with source := ws }
  | .want n a, l => { l with wanted := n, next := a, takerDone := false }
  | .rethink n, l => if l.wanted = 0 then l else { l with wanted := n }
  | .acknowledge, l => { l with giverDone := false }
  | .idle, l => l

def follow (size : Nat) (e : Event α) (l : State α) : State α := transfer size (request e l)

theorem resting_follow (e : Event α) (l : State α) : Resting (follow size e l) :=
  resting_transfer _

/-- What passed and what is left of the list is what passed before and the list. -/
theorem passed_transfer (l : State α) :
    (transfer size l).passed ++ (transfer size l).source = l.passed ++ l.source := by
  unfold transfer
  rw [List.append_assoc, List.take_append_drop]

/-- The lists up to now, one after the other; of a list that is changed, what has passed stays. -/
def give (e : Event α) (l : State α) (given : List α) : List α :=
  match e with
  | .offer ws => given ++ ws
  | .revise ws => given.take l.passed.length ++ ws
  | _ => given

/-- A request, with the lists of the giver. -/
def followGiving (size : Nat) (e : Event α) (l : State α × List α) : State α × List α :=
  (follow size e l.1, give e l.1 l.2)

/-- **Nothing is lost**: if the giver comes with another list only when the last one is exhausted,
    the words pass in the order of its lists, and what has not passed is what is left of the last
    one. -/
theorem follow_conserves {e : Event α} {l : State α} {given : List α}
    (hpatient : ∀ ws, e = .offer ws → l.source = []) (h : l.passed ++ l.source = given) :
    (follow size e l).passed ++ (follow size e l).source = give e l given := by
  rw [follow, passed_transfer]
  cases e with
  | offer ws =>
    rw [hpatient ws rfl, List.append_nil] at h
    rw [request, give, ← h]
  | revise ws => rw [request, give, ← h, List.take_left]
  | rethink n =>
    refine Eq.trans ?_ h
    rw [request]
    split <;> rfl
  | want n a | acknowledge | idle => exact h

end Rendezvous
