import Recast.Proofs.Continuation
import Mathlib.Logic.Relation

/-!
Moves of processes in any order. Rounds take the parts of a process in a fixed order; a move takes
any one part that can go on, however deep it stands, so that moves one after the other are all the
orders in which parts can be resumed. What rounds do is one of them (`Machine.advance_moves`).
A move of a process that is followed by a program is a move of the process, at whose end the program
takes over (`Machine.Move.of_bind`).
-/

set_option autoImplicit false

namespace Recast

/-- The parts that a process waits for. -/
def Proc.parts : Proc → List Proc
  | .joining _ parts _ | .racing parts _ => parts
  | _ => []

namespace Machine

/-- One move of a process. A part that can go on does so until it ends or has to wait again; when
the parts allow it, what waits for them goes on. -/
inductive Move : Machine → Proc → Machine → Proc → Prop
  | start {m m' : Machine} {p : Prog} {q : Proc} (h : m.run p = (m', q)) : Move m (.fresh p) m' q
  | resume {m m' : Machine} {o : Outcome} {k : Outcome → Prog} {q : Proc}
      (h : m.run (k o) = (m', q)) : Move m (.ready o k) m' q
  | wake {m m' : Machine} {time : ℕ} {k : Outcome → Prog} {q : Proc} (htime : time ≤ m.store.now)
      (h : m.run (k (.ok .null)) = (m', q)) : Move m (.sleeping time k) m' q
  | receive {m m' : Machine} {i : ℕ} {o : Outcome} {k : Outcome → Prog} {q : Proc}
      (ho : m.future? i = some o) (h : m.run (k o) = (m', q)) : Move m (.awaiting i k) m' q
  | part {m m' : Machine} {cancelled : Bool} {before after : List Proc} {p q : Proc}
      {k : Option (List Outcome) → Prog} (h : Move m p m' q) :
      Move m (.joining cancelled (before ++ p :: after) k) m'
        (.joining cancelled (before ++ q :: after) k)
  | join {m m' : Machine} {cancelled : Bool} {parts : List Proc} {os : List Outcome}
      {k : Option (List Outcome) → Prog} {q : Proc} (hos : Proc.outcomes? parts = some os)
      (h : m.run (k (if cancelled then none else some os)) = (m', q)) :
      Move m (.joining cancelled parts k) m' q
  | contender {m m' : Machine} {before after : List Proc} {p q : Proc}
      {k : Except Raised (List Value) → Prog} (h : Move m p m' q) :
      Move m (.racing (before ++ p :: after) k) m' (.racing (before ++ q :: after) k)
  | lose {m m' : Machine} {parts : List Proc} {e : Raised}
      {k : Except Raised (List Value) → Prog} {q : Proc} (he : Proc.firstFault? parts = some e)
      (h : run (k (.error e)) { m with strays := m.strays ++ parts.filter Proc.isOpen } = (m', q)) :
      Move m (.racing parts k) m' q
  | win {m m' : Machine} {parts : List Proc} {vs : List Value}
      {k : Except Raised (List Value) → Prog} {q : Proc} (hvs : Proc.values? parts = some vs)
      (h : m.run (k (.ok vs)) = (m', q)) : Move m (.racing parts k) m' q

/-- What has ended does not move. -/
theorem Move.ne_settled {m m' : Machine} {p q : Proc} (h : Move m p m' q) (o : Outcome) :
    p ≠ .settled o := by
  cases h <;> exact nofun

/-- A move of a process that is followed by a program: either the process has ended and the program
starts, or the process moves, and the program takes over if it ends. -/
theorem Move.of_bind {m m' : Machine} {p q : Proc} {f : Outcome → Prog}
    (h : Move m (p.bind f) m' q) :
    (∃ o, p = .settled o ∧ m.run (f o) = (m', q)) ∨
      ∃ m₁ p₁, Move m p m₁ p₁ ∧ goOn f (m₁, p₁) = (m', q) := by
  cases p with
  | settled o =>
    cases h with
    | resume h => exact Or.inl ⟨o, rfl, h⟩
  | fresh r =>
    cases h with
    | start h => exact Or.inr ⟨_, _, .start rfl, (run_bind r f m).symm.trans h⟩
  | ready o k =>
    cases h with
    | resume h => exact Or.inr ⟨_, _, .resume rfl, (run_bind (k o) f m).symm.trans h⟩
  | sleeping time k =>
    cases h with
    | wake htime h => exact Or.inr ⟨_, _, .wake htime rfl, (run_bind _ f m).symm.trans h⟩
  | awaiting i k =>
    cases h with
    | receive ho h => exact Or.inr ⟨_, _, .receive ho rfl, (run_bind _ f m).symm.trans h⟩
  | joining cancelled parts k =>
    cases h with
    | part h => exact Or.inr ⟨_, _, .part h, rfl⟩
    | join hos h => exact Or.inr ⟨_, _, .join hos rfl, (run_bind _ f m).symm.trans h⟩
  | racing parts k =>
    cases h with
    | contender h => exact Or.inr ⟨_, _, .contender h, rfl⟩
    | lose he h => exact Or.inr ⟨_, _, .lose he rfl, (run_bind _ f _).symm.trans h⟩
    | win hvs h => exact Or.inr ⟨_, _, .win hvs rfl, (run_bind _ f m).symm.trans h⟩

/-- When a process that is followed by a program moves, the program takes over if it ends. -/
theorem Move.bind {m m' m'' : Machine} {p q r : Proc} (h : Move m p m' q) {f : Outcome → Prog}
    (hgoOn : goOn f (m', q) = (m'', r)) : Move m (p.bind f) m'' r := by
  cases h with
  | start h => exact .start ((run_bind _ f m).trans (h ▸ hgoOn))
  | resume h => exact .resume ((run_bind _ f m).trans (h ▸ hgoOn))
  | wake htime h => exact .wake htime ((run_bind _ f m).trans (h ▸ hgoOn))
  | receive ho h => exact .receive ho ((run_bind _ f m).trans (h ▸ hgoOn))
  | part h =>
    cases hgoOn
    exact .part h
  | join hos h => exact .join hos ((run_bind _ f m).trans (h ▸ hgoOn))
  | contender h =>
    cases hgoOn
    exact .contender h
  | lose he h => exact .lose he ((run_bind _ f _).trans (h ▸ hgoOn))
  | win hvs h => exact .win hvs ((run_bind _ f m).trans (h ▸ hgoOn))

/-! ### Rounds are moves -/

/-- Moves one after the other. -/
def Moves : Machine × Proc → Machine × Proc → Prop :=
  Relation.ReflTransGen fun s t ↦ Move s.1 s.2 t.1 t.2

theorem Move.moves {m m' : Machine} {p q : Proc} (h : Move m p m' q) : Moves (m, p) (m', q) :=
  .single h

/-- Moves of a part are moves of what waits for it. -/
theorem Moves.part {s t : Machine × Proc} (h : Moves s t) (cancelled : Bool)
    (before after : List Proc) (k : Option (List Outcome) → Prog) :
    Moves (s.1, .joining cancelled (before ++ s.2 :: after) k)
      (t.1, .joining cancelled (before ++ t.2 :: after) k) := by
  induction h with
  | refl => exact .refl
  | tail _ hmove ih => exact ih.tail (.part hmove)

theorem Moves.contender {s t : Machine × Proc} (h : Moves s t) (before after : List Proc)
    (k : Except Raised (List Value) → Prog) :
    Moves (s.1, .racing (before ++ s.2 :: after) k) (t.1, .racing (before ++ t.2 :: after) k) := by
  induction h with
  | refl => exact .refl
  | tail _ hmove ih => exact ih.tail (.contender hmove)

/-- Moves of a list of parts, whatever waits for them. -/
def PartMoves (m : Machine) (parts : List Proc) (m' : Machine) (parts' : List Proc) : Prop :=
  ∀ before, (∀ cancelled k, Moves (m, .joining cancelled (before ++ parts) k)
      (m', .joining cancelled (before ++ parts') k)) ∧
    ∀ k, Moves (m, .racing (before ++ parts) k) (m', .racing (before ++ parts') k)

theorem PartMoves.cons {m m₁ m₂ : Machine} {p p' : Proc} {rest rest' : List Proc}
    (hp : Moves (m, p) (m₁, p')) (hrest : PartMoves m₁ rest m₂ rest') :
    PartMoves m (p :: rest) m₂ (p' :: rest') := by
  intro before
  obtain ⟨hjoin, hrace⟩ := hrest (before ++ [p'])
  simp only [List.append_assoc, List.singleton_append] at hjoin hrace
  exact ⟨fun cancelled k ↦ (hp.part cancelled before rest k).trans (hjoin cancelled k),
    fun k ↦ (hp.contender before rest k).trans (hrace k)⟩

mutual

/-- A move of a round is made of moves. -/
theorem advance_moves : ∀ (p : Proc) (m : Machine), Moves (m, p) (advance p m)
  | .settled _, _ => .refl
  | .fresh _, _ => (Move.start rfl).moves
  | .ready _ _, _ => (Move.resume rfl).moves
  | .sleeping time k, m => by
    by_cases htime : time ≤ m.store.now
    · rw [advance, if_pos htime]
      exact (Move.wake htime rfl).moves
    · rw [advance, if_neg htime]
      exact .refl
  | .awaiting i k, m => by
    rw [advance]
    split
    next o ho => exact (Move.receive ho rfl).moves
    next => exact .refl
  | .joining cancelled parts k, m => by
    have hparts := (advanceAll_moves parts m []).1 cancelled k
    rcases hall : advanceAll parts m with ⟨m₁, parts₁⟩
    simp only [hall, advance, List.nil_append] at hparts ⊢
    split
    next os hos => exact hparts.tail (.join hos rfl)
    next => exact hparts
  | .racing parts k, m => by
    have hparts := (advanceAll_moves parts m []).2 k
    rcases hall : advanceAll parts m with ⟨m₁, parts₁⟩
    simp only [hall, advance, List.nil_append] at hparts ⊢
    split
    next e he => exact hparts.tail (.lose he rfl)
    next =>
      split
      next vs hvs => exact hparts.tail (.win hvs rfl)
      next => exact hparts

/-- So are the moves of all parts in order. -/
theorem advanceAll_moves : ∀ (parts : List Proc) (m : Machine),
    PartMoves m parts (advanceAll parts m).1 (advanceAll parts m).2
  | [], _ => fun _ ↦ ⟨fun _ _ ↦ .refl, fun _ ↦ .refl⟩
  | p :: rest, m => PartMoves.cons (advance_moves p m) (advanceAll_moves rest (advance p m).1)

end

end Machine

end Recast
