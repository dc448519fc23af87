import Recast.Proofs.Story

/-!
Turns. In a round each process takes a turn, and with it all its parts, one after the other; later a
part that was suspended may also take turns of its own, whenever it is resumed (`Machine.Turn`). So
parts begin together and go on in any order. A turn of a process that is followed by a program is a
turn of the process, at whose end the program takes over (`Machine.steps_turn`), and the turn of
several parts is a list of turns, one of each part that has not ended (`Machine.Round`).
-/

set_option autoImplicit false

namespace Recast

theorem Proc.exists_map_settled {parts : List Proc} (h : ∀ p ∈ parts, ∃ o, p = .settled o) :
    ∃ os : List Outcome, parts = os.map .settled := by
  induction parts with
  | nil => exact ⟨[], rfl⟩
  | cons p rest ih =>
    obtain ⟨⟨o, rfl⟩, hrest⟩ := List.forall_mem_cons.mp h
    obtain ⟨os, rfl⟩ := ih hrest
    exact ⟨o :: os, rfl⟩

/-- What has begun has begun when it is followed by a program. -/
theorem Proc.bind_ne_fresh {p : Proc} (h : ∀ r, p ≠ .fresh r) (f : Outcome → Prog) (r : Prog) :
    p.bind f ≠ .fresh r := by
  cases p with
  | fresh q => exact absurd rfl (h q)
  | _ => exact nofun

namespace Machine

/-! ### Moves in a round -/

/-- In a round, a process that is followed by a program moves as it does by itself, and the program
takes over if it ends. -/
theorem advance_bind (p : Proc) (f : Outcome → Prog) (m : Machine) :
    advance (p.bind f) m = goOn f (advance p m) := by
  cases p with
  | settled o => rfl
  | fresh p => exact run_bind p f m
  | ready o k => exact run_bind (k o) f m
  | sleeping wake k =>
    rw [Proc.bind, advance, advance]
    split
    · exact run_bind _ f m
    · rfl
  | awaiting i k =>
    rw [Proc.bind, advance, advance]
    split
    · exact run_bind _ f m
    · rfl
  | joining cancelled parts k =>
    rw [Proc.bind, advance, advance]
    dsimp only
    split
    · exact run_bind _ f _
    · rfl
  | racing parts k =>
    rw [Proc.bind, advance, advance]
    dsimp only
    split
    · exact run_bind _ f _
    · split
      · exact run_bind _ f _
      · rfl

/-- What a program leaves when it has to wait has begun. -/
theorem execWith_ne_fresh {enter : Prog → Machine → Machine × Proc}
    (henter : ∀ p m r, (enter p m).2 ≠ .fresh r) (p : Prog) (m : Machine) (r : Prog) :
    (execWith enter p m).2 ≠ .fresh r := by
  have hbind : ∀ {p m m' q} (k : Outcome → Prog), enter p m = (m', q) → q.bind k ≠ .fresh r :=
    fun {p m m' q} k h ↦ Proc.bind_ne_fresh (fun r' hr ↦ henter p m r' (h ▸ hr)) k r
  fun_induction execWith enter p m
  all_goals first
    | assumption
    | exact hbind _ (by assumption)
    | rename_i hshare ih
      cases hshare
      exact ih
    | exact nofun

theorem exec_ne_fresh (depth : ℕ) (p : Prog) (m : Machine) (r : Prog) :
    (exec depth p m).2 ≠ .fresh r := by
  induction depth generalizing p m r with
  | zero =>
    refine execWith_ne_fresh (fun _ m r h ↦ ?_) p m r
    cases h
  | succ depth ih => exact execWith_ne_fresh ih p m r

theorem run_ne_fresh (p : Prog) (m : Machine) (r : Prog) : (m.run p).2 ≠ .fresh r :=
  exec_ne_fresh depthLimit p m r

/-- What has taken a turn has begun. -/
theorem advance_ne_fresh (p : Proc) (m : Machine) (r : Prog) : (advance p m).2 ≠ .fresh r := by
  cases p with
  | settled o => simp [advance]
  | fresh p => exact run_ne_fresh p m r
  | ready o k => exact run_ne_fresh _ m r
  | sleeping wake k =>
    rw [advance]
    split
    · exact run_ne_fresh _ m r
    · simp
  | awaiting i k =>
    rw [advance]
    split
    · exact run_ne_fresh _ m r
    · simp
  | joining cancelled parts k =>
    rw [advance]
    dsimp only
    split
    · exact run_ne_fresh _ _ r
    · simp
  | racing parts k =>
    rw [advance]
    dsimp only
    split
    · exact run_ne_fresh _ _ r
    · split
      · exact run_ne_fresh _ _ r
      · simp

end Machine

/-- The process has begun and has not ended. -/
def Proc.IsSuspended (p : Proc) : Prop := (∀ r, p ≠ .fresh r) ∧ ∀ o, p ≠ .settled o

namespace Machine

/-! ### Turns -/

/-- A turn of a process. It is its move in a round, in which all its parts move in order; or it is
that of a part that was suspended and is resumed by itself. -/
inductive Turn : Machine → Proc → Machine → Proc → Prop
  | whole {m m' : Machine} {p q : Proc} (hopen : ∀ o, p ≠ .settled o) (h : advance p m = (m', q)) :
    Turn m p m' q
  | part {m m' : Machine} {cancelled : Bool} {before after : List Proc} {p q : Proc}
      {k : Option (List Outcome) → Prog} (hp : p.IsSuspended) (h : Turn m p m' q) :
    Turn m (.joining cancelled (before ++ p :: after) k) m'
      (.joining cancelled (before ++ q :: after) k)
  | contender {m m' : Machine} {before after : List Proc} {p q : Proc}
      {k : Except Raised (List Value) → Prog} (hp : p.IsSuspended) (h : Turn m p m' q) :
    Turn m (.racing (before ++ p :: after) k) m' (.racing (before ++ q :: after) k)

theorem Turn.ne_fresh {m m' : Machine} {p q : Proc} (h : Turn m p m' q) (r : Prog) :
    q ≠ .fresh r := by
  cases h with
  | whole _ h => exact (congrArg Prod.snd h).symm.trans_ne (advance_ne_fresh p m r)
  | part | contender => exact nofun

theorem steps_turn : Steps Turn where
  ne_settled h := by
    cases h with
    | whole hopen => exact hopen
    | part | contender => exact nofun
  of_bind := by
    intro m m' p q f h
    by_cases hended : ∃ o, p = .settled o
    · obtain ⟨o, rfl⟩ := hended
      cases h with
      | whole _ h => exact Or.inl ⟨o, rfl, h⟩
    have hopen : ∀ o, p ≠ .settled o := fun o ho ↦ hended ⟨o, ho⟩
    have hwhole : advance (p.bind f) m = (m', q) →
        ∃ m₁ p₁, Turn m p m₁ p₁ ∧ goOn f (m₁, p₁) = (m', q) := fun h ↦
      ⟨_, _, .whole hopen rfl, (advance_bind p f m).symm.trans h⟩
    refine Or.inr ?_
    cases p with
    | settled o => exact absurd rfl (hopen o)
    | joining cancelled parts k =>
      cases h with
      | whole _ h => exact hwhole h
      | part hp h => exact ⟨_, _, .part hp h, rfl⟩
    | racing parts k =>
      cases h with
      | whole _ h => exact hwhole h
      | contender hp h => exact ⟨_, _, .contender hp h, rfl⟩
    | _ =>
      cases h with
      | whole _ h => exact hwhole h

/-- What has taken turns is not called again. -/
theorem ne_fresh_of_follows {p : Prog} {ms : Story} {q : Proc} (h : Story.Follows Turn p ms q)
    (hne : ms ≠ []) (r : Prog) : q ≠ .fresh r := by
  cases h with
  | fresh => exact absurd rfl hne
  | move _ hturn => exact hturn.ne_fresh r

/-! ### Rounds of parts -/

/-- Moves that follow each other without a gap, from one machine to another. -/
inductive Spans : Machine → List (ℕ × Machine × Machine) → Machine → Prop
  | nil {m : Machine} : Spans m [] m
  | cons {m m₁ m' : Machine} {i : ℕ} {moves : List (ℕ × Machine × Machine)}
      (h : Spans m₁ moves m') : Spans m ((i, m, m₁) :: moves) m'

/-- In a round of parts, counted from a number on, each takes a turn that has not ended. -/
inductive Round :
    ℕ → Machine → List Proc → List (ℕ × Machine × Machine) → Machine → List Proc → Prop
  | nil {i : ℕ} {m : Machine} : Round i m [] [] m []
  | ended {i : ℕ} {m m' : Machine} {o : Outcome} {rest rest' : List Proc}
      {moves : List (ℕ × Machine × Machine)} (h : Round (i + 1) m rest moves m' rest') :
    Round i m (.settled o :: rest) moves m' (.settled o :: rest')
  | turn {i : ℕ} {m m₁ m' : Machine} {p q : Proc} {rest rest' : List Proc}
      {moves : List (ℕ × Machine × Machine)} (hopen : ∀ o, p ≠ .settled o)
      (hfirst : advance p m = (m₁, q)) (h : Round (i + 1) m₁ rest moves m' rest') :
    Round i m (p :: rest) ((i, m, m₁) :: moves) m' (q :: rest')

/-- Parts that have all ended take no turns. -/
theorem advanceAll_map_settled (os : List Outcome) (m : Machine) :
    advanceAll (os.map .settled) m = (m, os.map .settled) := by
  induction os with
  | nil => rfl
  | cons o rest ih =>
    rw [List.map_cons, advanceAll, advance]
    dsimp only
    rw [ih]

theorem exists_round (parts : List Proc) (i : ℕ) (m : Machine) :
    ∃ moves, Round i m parts moves (advanceAll parts m).1 (advanceAll parts m).2 := by
  induction parts generalizing i m with
  | nil => exact ⟨[], .nil⟩
  | cons p rest ih =>
    by_cases hended : ∃ o, p = .settled o
    · obtain ⟨o, rfl⟩ := hended
      obtain ⟨moves, hrest⟩ := ih (i + 1) m
      exact ⟨moves, .ended hrest⟩
    · obtain ⟨moves, hrest⟩ := ih (i + 1) (advance p m).1
      exact ⟨_, .turn (fun o ho ↦ hended ⟨o, ho⟩) rfl hrest⟩

namespace Round

variable {i : ℕ} {m m' : Machine} {parts parts' : List Proc}
  {moves : List (ℕ × Machine × Machine)}

theorem length_eq (h : Round i m parts moves m' parts') : parts'.length = parts.length := by
  induction h with
  | nil => rfl
  | ended _ ih | turn _ _ _ ih => simpa using ih

theorem spans (h : Round i m parts moves m' parts') : Spans m moves m' := by
  induction h with
  | nil => exact .nil
  | ended _ ih => exact ih
  | turn _ _ _ ih => exact .cons ih

/-- The parts take their turns in order. -/
theorem sublist (h : Round i m parts moves m' parts') :
    (moves.map Prod.fst).Sublist (List.range' i parts.length) := by
  induction h with
  | nil => exact .slnil
  | ended _ ih => exact .cons _ ih
  | turn _ _ _ ih => exact .cons_cons _ ih

theorem mem_bounds (h : Round i m parts moves m' parts') {t : ℕ × Machine × Machine}
    (ht : t ∈ moves) : i ≤ t.1 ∧ t.1 < i + parts.length := by
  simpa using h.sublist.subset (List.mem_map_of_mem ht)

/-- When no part has ended, each takes a turn. -/
theorem map_fst_eq (h : Round i m parts moves m' parts')
    (hopen : ∀ p ∈ parts, ∀ o, p ≠ .settled o) :
    moves.map Prod.fst = List.range' i parts.length := by
  induction h with
  | nil => rfl
  | ended => exact absurd rfl (hopen _ List.mem_cons_self _)
  | turn _ _ _ ih =>
    rw [List.map_cons, ih fun p hp ↦ hopen p (List.mem_cons_of_mem _ hp)]
    rfl

/-- What the share of a part in the round is: nothing, if it has ended, and else its turn. -/
theorem share (h : Round i m parts moves m' parts') {j : ℕ} {p q : Proc} (hp : parts[j]? = some p)
    (hq : parts'[j]? = some q) :
    (∃ o, p = .settled o ∧ q = .settled o ∧ Story.share moves (i + j) = []) ∨
      ∃ m₁ m₂, Turn m₁ p m₂ q ∧ Story.share moves (i + j) = [(m₁, m₂)] := by
  induction h generalizing j with
  | nil => cases hp
  | @ended i _ _ o _ _ _ hrest ih =>
    cases j with
    | zero =>
      cases hp
      cases hq
      refine Or.inl ⟨o, rfl, rfl, Story.share_eq_nil fun t ht ↦ ?_⟩
      have := (hrest.mem_bounds ht).1
      omega
    | succ j => simpa only [Nat.add_right_comm, Nat.add_assoc] using ih hp hq
  | @turn i m m₁ _ p _ _ _ moves hopen hfirst hrest ih =>
    cases j with
    | zero =>
      cases hp
      cases hq
      refine Or.inr ⟨m, m₁, .whole hopen hfirst, ?_⟩
      have hrest_share : Story.share moves i = [] := Story.share_eq_nil fun t ht ↦ by
        have := (hrest.mem_bounds ht).1
        omega
      rw [Nat.add_zero, Story.share_cons_self, hrest_share]
    | succ j =>
      rw [Story.share_cons_of_ne _ (by omega)]
      simpa only [Nat.add_right_comm, Nat.add_assoc] using ih hp hq

end Round

end Machine

end Recast
