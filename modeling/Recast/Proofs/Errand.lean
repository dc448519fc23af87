import Recast.Proofs.Duration
import Mathlib.Algebra.GroupWithZero.Nat
import Mathlib.Algebra.Order.Group.Multiset

/-!
Errands. A process on an errand has a number of turns left at most and certain lookups still to
begin, whatever else is done to the machine in between, and it ends in a certain way (`Errand`).
Parts that it leaves behind when it goes on without them are on errands of their own, which begin no
more lookups. A run by itself therefore comes to an end within a number of rounds that is known
beforehand, and by then it has begun exactly these lookups (`Errand.Out.settles`).
-/

set_option autoImplicit false

namespace Recast

/-! ### What stays -/

/-- The declared types, the futures and the records that there are in a store stay, and no future is
filled by a process. -/
structure Store.Stands (s : Store) (m : Machine) : Prop where
  types : m.store.types = s.types
  futures : m.store.futures = s.futures
  tasks : m.tasks = #[]
  size_le : s.records.size ≤ m.store.records.size
  records : ∀ ref < s.records.size, m.store.records[ref]? = s.records[ref]?

theorem Store.Stands.sameBelow {s s' : Store} {m : Machine} (hm : s.Stands m)
    (h : m.store.SameBelow s.records.size s') : s.Stands { m with store := s' } where
  types := h.types.trans hm.types
  futures := h.futures.trans hm.futures
  tasks := hm.tasks
  size_le := hm.size_le.trans h.size_le
  records ref href := (h.records ref href).trans (hm.records ref href)

theorem Store.Stands.later {s : Store} {m : Machine} (hm : s.Stands m) (now : ℕ) :
    s.Stands (m.later now) := ⟨hm.types, hm.futures, hm.tasks, hm.size_le, hm.records⟩

/-- Without strays, nothing goes on in the background. -/
theorem Store.Stands.background_eq {s : Store} {m : Machine} (hm : s.Stands m)
    (hstrays : m.strays = []) : m.background = m := by
  have htasks : Machine.advanceTasks m = m := by
    rw [Machine.advanceTasks, hm.tasks]
    rfl
  rw [Machine.background, htasks]
  obtain ⟨store, functions, bodies, tasks, customs, strays⟩ := m
  cases hstrays
  rfl

/-- What may be relied on in a run that is by itself: what there was stays. -/
def Store.standing (s : Store) : Surroundings where
  base := s.records.size
  holds := s.Stands
  base_le hm := hm.size_le
  stable hm h := hm.sameBelow h

namespace Machine

/-- What was done in a turn: lookups have begun and processes have been left behind, and the clock
has stood still. -/
structure Deed (s : Store) (m m' : Machine) (begun : List Value) (behind : List Proc) : Prop where
  stands : s.Stands m'
  now_eq : m'.store.now = m.store.now
  lookups_eq : m'.store.lookups = m.store.lookups ++ begun
  strays_eq : m'.strays = m.strays ++ behind

namespace Deed

variable {s s' : Store} {m m' m'' : Machine} {begun begun' : List Value}
  {behind behind' : List Proc}

theorem refl (hm : s.Stands m) : m.Deed s m [] [] :=
  ⟨hm, rfl, (List.append_nil _).symm, (List.append_nil _).symm⟩

theorem trans (h : m.Deed s m' begun behind) (h' : m'.Deed s m'' begun' behind') :
    m.Deed s m'' (begun ++ begun') (behind ++ behind') where
  stands := h'.stands
  now_eq := h'.now_eq.trans h.now_eq
  lookups_eq := by rw [h'.lookups_eq, h.lookups_eq, List.append_assoc]
  strays_eq := by rw [h'.strays_eq, h.strays_eq, List.append_assoc]

theorem of_sameBelow (hm : s.Stands m) (h : m.store.SameBelow s.records.size s') :
    m.Deed s { m with store := s' } [] [] :=
  ⟨hm.sameBelow h, h.now, h.lookups.trans (List.append_nil _).symm, (List.append_nil _).symm⟩

end Deed

/-! ### When a process can move -/

section Clock

variable {m m' : Machine}

mutual

/-- Whether a process can move depends on the clock and on futures alone. -/
theorem canMove_congr (hnow : m'.store.now = m.store.now)
    (hfutures : m'.store.futures = m.store.futures) : ∀ p : Proc, canMove m' p = canMove m p
  | .settled _ | .fresh _ | .ready .. => rfl
  | .sleeping .. => by rw [canMove, canMove, hnow]
  | .awaiting .. => by simp only [canMove, future?, hfutures]
  | .joining _ parts _ | .racing parts _ => anyCanMove_congr hnow hfutures parts

theorem anyCanMove_congr (hnow : m'.store.now = m.store.now)
    (hfutures : m'.store.futures = m.store.futures) :
    ∀ ps : List Proc, anyCanMove m' ps = anyCanMove m ps
  | [] => rfl
  | p :: rest => by
    rw [anyCanMove, anyCanMove, canMove_congr hnow hfutures p, anyCanMove_congr hnow hfutures rest]

end

theorem mem_earlier {a b : Option ℕ} {t : ℕ} (h : t ∈ earlier a b) : t ∈ a ∨ t ∈ b := by
  cases a with
  | none => exact Or.inr h
  | some x =>
    cases b with
    | none => exact Or.inl h
    | some y =>
      obtain rfl := Option.some.inj h
      rcases Nat.le_total x y with hle | hle <;> simp [hle]

mutual

/-- What was to wake by now can move. -/
theorem canMove_of_wake? : ∀ (p : Proc) {t : ℕ}, t ∈ wake? p → t ≤ m.store.now →
    canMove m p = true
  | .settled _, _, h, _ | .fresh _, _, h, _ | .ready .., _, h, _ | .awaiting .., _, h, _ =>
    nomatch h
  | .sleeping .., _, h, hle => decide_eq_true (Option.some.inj h ▸ hle)
  | .joining _ parts _, _, h, hle | .racing parts _, _, h, hle =>
    anyCanMove_of_firstWake? parts h hle

theorem anyCanMove_of_firstWake? : ∀ (ps : List Proc) {t : ℕ}, t ∈ firstWake? ps →
    t ≤ m.store.now → anyCanMove m ps = true
  | [], _, h, _ => nomatch h
  | p :: rest, _, h, hle => by
    rw [anyCanMove, Bool.or_eq_true]
    rcases mem_earlier h with hp | hrest
    · exact Or.inl (canMove_of_wake? p hp hle)
    · exact Or.inr (anyCanMove_of_firstWake? rest hrest hle)

end

end Clock

end Machine

/-! ### Errands -/

/-- What a turn has left of an errand: the lookups that have begun and those that have not, the
turns that are left, and the processes that were left behind, with their turns. -/
structure Stint where
  begun : List Value
  todo : Multiset Value
  turns : ℕ
  behind : List (Proc × ℕ)
  deriving Inhabited

namespace Stint

/-- All turns that are left. -/
def total (st : Stint) : ℕ := st.turns + (st.behind.map Prod.snd).sum

/-- Two stints, one after the other. -/
def join (st st' : Stint) : Stint :=
  ⟨st.begun ++ st'.begun, st.todo + st'.todo, st.turns + st'.turns, st.behind ++ st'.behind⟩

theorem total_join (st st' : Stint) : (st.join st').total = st.total + st'.total := by
  simp only [total, join, List.map_append, List.sum_append]
  omega

end Stint

/-- The turn has done what the stint says, as a part of the errand. Processes are left behind only
where they may be. -/
structure Stint.Of (s : Store) (leaves : Prop) (m m' : Machine) (todo : Multiset Value)
    (st : Stint) : Prop where
  deed : m.Deed s m' st.begun (st.behind.map Prod.fst)
  todo_eq : (st.begun : Multiset Value) + st.todo = todo
  leaves_of_behind : st.behind ≠ [] → leaves

/-- Whatever is done to the machine in between, the process has at most so many turns left, begins
exactly these lookups in them, and ends in a result. -/
inductive Errand (s : Store) (leaves : Prop) :
    (Outcome → Prop) → ℕ → Multiset Value → Proc → Prop
  | ended {result : Outcome → Prop} {turns : ℕ} {o : Outcome} (h : result o) :
    Errand s leaves result turns 0 (.settled o)
  | going {result : Outcome → Prop} {turns : ℕ} {todo : Multiset Value} {p : Proc}
      (next : Machine → Stint) (hopen : p.isOpen = true)
      (hstill : ∀ m, s.Stands m → m.canMove p = false →
        Machine.advance p m = (m, p) ∧ Machine.wake? p ≠ none)
      (hof : ∀ m, s.Stands m → m.canMove p = true →
        (next m).Of s leaves m (Machine.advance p m).1 todo ∧ (next m).total < turns)
      (hnext : ∀ m, s.Stands m → m.canMove p = true →
        Errand s leaves result (next m).turns (next m).todo (Machine.advance p m).2)
      (hbehind : ∀ m, s.Stands m → m.canMove p = true → ∀ q ∈ (next m).behind,
        Errand s leaves (fun _ ↦ True) q.2 0 q.1) :
    Errand s leaves result turns todo p

/-- Processes that were left behind are on errands that begin no more lookups. -/
def Abroad (s : Store) (leaves : Prop) (strays : List (Proc × ℕ)) : Prop :=
  ∀ q ∈ strays, Errand s leaves (fun _ ↦ True) q.2 0 q.1

/-- A turn of what is on an errand leaves less to do if it can move at all. -/
structure Stint.Left (s : Store) (leaves : Prop) (can : Bool) (m m' : Machine) (turns : ℕ)
    (todo : Multiset Value) (st : Stint) : Prop where
  of : st.Of s leaves m m' todo
  total_le : st.total ≤ turns
  total_lt : can = true → st.total < turns
  abroad : Abroad s leaves st.behind

theorem Stint.Left.join {s : Store} {leaves : Prop} {can can' : Bool} {m m' m'' : Machine}
    {turns turns' : ℕ} {todo todo' : Multiset Value} {st st' : Stint}
    (h : st.Left s leaves can m m' turns todo)
    (h' : st'.Left s leaves can' m' m'' turns' todo') :
    (st.join st').Left s leaves (can || can') m m'' (turns + turns') (todo + todo') where
  of :=
    { deed := by
        rw [Stint.join, List.map_append]
        exact h.of.deed.trans h'.of.deed
      todo_eq := by
        rw [← h.of.todo_eq, ← h'.of.todo_eq, Stint.join, ← Multiset.coe_add]
        exact add_add_add_comm _ _ _ _
      leaves_of_behind := fun hne ↦ by
        by_cases hnil : st.behind = []
        · exact h'.of.leaves_of_behind fun hnil' ↦ hne (List.append_eq_nil_iff.mpr ⟨hnil, hnil'⟩)
        · exact h.of.leaves_of_behind hnil }
  total_le := by
    rw [total_join]
    exact Nat.add_le_add h.total_le h'.total_le
  total_lt hcan := by
    rw [total_join]
    rcases Bool.or_eq_true_iff.mp hcan with hfirst | hsecond
    · exact Nat.add_lt_add_of_lt_of_le (h.total_lt hfirst) h'.total_le
    · exact Nat.add_lt_add_of_le_of_lt h.total_le (h'.total_lt hsecond)
  abroad := List.forall_mem_append.mpr ⟨h.abroad, h'.abroad⟩

namespace Errand

variable {s : Store} {leaves : Prop} {result result' : Outcome → Prop} {turns turns' : ℕ}
  {todo todo' : Multiset Value} {m m' : Machine} {p : Proc}

/-- What has ended has begun all lookups, and its outcome is a result. -/
theorem of_settled {o : Outcome} (h : Errand s leaves result turns todo (.settled o)) :
    todo = 0 ∧ result o := by
  cases h with
  | ended h => exact ⟨rfl, h⟩
  | going _ hopen => cases hopen

theorem still (h : Errand s leaves result turns todo p) (hm : s.Stands m)
    (hcan : m.canMove p = false) : Machine.advance p m = (m, p) := by
  cases h with
  | ended => rfl
  | going _ _ hstill => exact (hstill m hm hcan).1

theorem wakes (h : Errand s leaves result turns todo p) (hopen : p.isOpen = true)
    (hm : s.Stands m) (hcan : m.canMove p = false) : Machine.wake? p ≠ none := by
  cases h with
  | ended => cases hopen
  | going _ _ hstill => exact (hstill m hm hcan).2

theorem turn (h : Errand s leaves result turns todo p) (hm : s.Stands m) :
    ∃ st : Stint, st.Left s leaves (m.canMove p) m (Machine.advance p m).1 turns todo ∧
      Errand s leaves result st.turns st.todo (Machine.advance p m).2 := by
  cases hcan : m.canMove p with
  | false =>
    rw [h.still hm hcan]
    exact ⟨⟨[], todo, turns, []⟩, ⟨⟨.refl hm, zero_add todo, fun hnil ↦ absurd rfl hnil⟩, le_rfl,
      nofun, nofun⟩, h⟩
  | true =>
    cases h with
    | ended => cases hcan
    | going next hopen _ hof hnext hbehind =>
      obtain ⟨hstint, hlt⟩ := hof m hm hcan
      exact ⟨next m, ⟨hstint, hlt.le, fun _ ↦ hlt, hbehind m hm hcan⟩, hnext m hm hcan⟩

/-- An errand is told by its next turn. -/
theorem of_turn (hopen : p.isOpen = true)
    (hstill : ∀ m, s.Stands m → m.canMove p = false →
      Machine.advance p m = (m, p) ∧ Machine.wake? p ≠ none)
    (hturn : ∀ m, s.Stands m → m.canMove p = true →
      ∃ st : Stint, st.Left s leaves true m (Machine.advance p m).1 turns todo ∧
        Errand s leaves result st.turns st.todo (Machine.advance p m).2) :
    Errand s leaves result turns todo p := by
  choose! next hleft hnext using hturn
  exact .going next hopen hstill
    (fun m hm hcan ↦ ⟨(hleft m hm hcan).of, (hleft m hm hcan).total_lt rfl⟩) hnext
    fun m hm hcan ↦ (hleft m hm hcan).abroad

theorem mono (h : Errand s leaves result turns todo p) (hresult : ∀ o, result o → result' o)
    (hturns : turns ≤ turns') : Errand s leaves result' turns' todo p := by
  induction h generalizing result' turns' with
  | ended h => exact .ended (hresult _ h)
  | going next hopen hstill hof _ hbehind ih =>
    exact .going next hopen hstill
      (fun m hm hcan ↦ ⟨(hof m hm hcan).1, (hof m hm hcan).2.trans_le hturns⟩)
      (fun m hm hcan ↦ ih m hm hcan hresult le_rfl) hbehind

end Errand

/-! ### Errands side by side -/

/-- Processes side by side are on errands; their turns and lookups add up. -/
inductive Errands (s : Store) (leaves : Prop) :
    List (Outcome → Prop) → ℕ → Multiset Value → List Proc → Prop
  | nil : Errands s leaves [] 0 0 []
  | cons {result : Outcome → Prop} {results : List (Outcome → Prop)} {turns turns' : ℕ}
      {todo todo' : Multiset Value} {p : Proc} {ps : List Proc}
      (h : Errand s leaves result turns todo p) (hrest : Errands s leaves results turns' todo' ps) :
    Errands s leaves (result :: results) (turns + turns') (todo + todo') (p :: ps)

namespace Errands

variable {s : Store} {leaves : Prop} {results : List (Outcome → Prop)} {turns : ℕ}
  {todo : Multiset Value} {m : Machine} {ps : List Proc}

theorem still (h : Errands s leaves results turns todo ps) (hm : s.Stands m)
    (hcan : m.anyCanMove ps = false) : Machine.advanceAll ps m = (m, ps) := by
  induction h with
  | nil => rfl
  | cons h _ ih =>
    obtain ⟨hp, hrest⟩ := Bool.or_eq_false_iff.mp hcan
    rw [Machine.advanceAll, h.still hm hp]
    dsimp only
    rw [ih hrest]

theorem wakes (h : Errands s leaves results turns todo ps) (hopen : ps.any Proc.isOpen = true)
    (hm : s.Stands m) (hcan : m.anyCanMove ps = false) : Machine.firstWake? ps ≠ none := by
  induction h with
  | nil => cases hopen
  | cons h _ ih =>
    obtain ⟨hp, hrest⟩ := Bool.or_eq_false_iff.mp hcan
    rw [Machine.firstWake?, Machine.earlier_ne_none_iff]
    rcases Bool.or_eq_true_iff.mp hopen with hfirst | hothers
    · exact Or.inl (h.wakes hfirst hm hp)
    · exact Or.inr (ih hothers hrest)

theorem turn (h : Errands s leaves results turns todo ps) (hm : s.Stands m) :
    ∃ st : Stint, st.Left s leaves (m.anyCanMove ps) m (Machine.advanceAll ps m).1 turns todo ∧
      Errands s leaves results st.turns st.todo (Machine.advanceAll ps m).2 := by
  induction h generalizing m with
  | nil =>
    exact ⟨⟨[], 0, 0, []⟩, ⟨⟨.refl hm, rfl, fun hnil ↦ absurd rfl hnil⟩, le_rfl, nofun, nofun⟩,
      .nil⟩
  | @cons result results turns turns' todo todo' p ps h hrest ih =>
    obtain ⟨st, hleft, hnext⟩ := h.turn hm
    have hdeed := hleft.of.deed
    obtain ⟨st', hleft', hnext'⟩ := ih hdeed.stands
    have hsame := Machine.anyCanMove_congr hdeed.now_eq
      (hdeed.stands.futures.trans hm.futures.symm) ps
    have hboth := hleft.join hleft'
    rw [hsame] at hboth
    exact ⟨st.join st', hboth, .cons hnext hnext'⟩

/-- When all have ended, all lookups have begun, and each outcome is a result. -/
theorem of_settled {os : List Outcome} (h : Errands s leaves results turns todo (os.map .settled)) :
    todo = 0 ∧ List.Forall₂ (fun result o ↦ result o) results os := by
  induction os generalizing results turns todo with
  | nil =>
    cases h
    exact ⟨rfl, .nil⟩
  | cons o os ih =>
    cases h with
    | cons h hrest =>
      obtain ⟨rfl, ho⟩ := h.of_settled
      obtain ⟨rfl, hos⟩ := ih hrest
      exact ⟨rfl, .cons ho hos⟩

/-- Those that have not ended can be left behind. -/
theorem exists_abroad (h : Errands s leaves results turns 0 ps) :
    ∃ strays, strays.map Prod.fst = ps.filter Proc.isOpen ∧ Abroad s leaves strays ∧
      (strays.map Prod.snd).sum ≤ turns := by
  generalize htodo : (0 : Multiset Value) = todo at h
  induction h with
  | nil => exact ⟨[], rfl, nofun, le_rfl⟩
  | @cons result results turns turns' todo todo' p ps h hrest ih =>
    obtain rfl : todo = 0 := Multiset.le_zero.mp (htodo ▸ Multiset.le_add_right todo todo')
    obtain rfl : 0 = todo' := htodo.trans (zero_add todo')
    obtain ⟨strays, hmap, habroad, hsum⟩ := ih rfl
    cases hp : p.isOpen with
    | false => exact ⟨strays, by simp [hp, hmap], habroad, hsum.trans (Nat.le_add_left _ _)⟩
    | true =>
      have hfirst : Errand s leaves (fun _ ↦ True) turns 0 p := h.mono (fun _ _ ↦ trivial) le_rfl
      refine ⟨(p, turns) :: strays, by simp [hp, hmap], ?_, Nat.add_le_add_left hsum turns⟩
      exact List.forall_mem_cons.mpr ⟨hfirst, habroad⟩

end Errands

theorem Abroad.errands {s : Store} {leaves : Prop} {strays : List (Proc × ℕ)}
    (h : Abroad s leaves strays) :
    ∃ results, Errands s leaves results (strays.map Prod.snd).sum 0 (strays.map Prod.fst) := by
  induction strays with
  | nil => exact ⟨[], .nil⟩
  | cons q strays ih =>
    obtain ⟨hq, hrest⟩ := List.forall_mem_cons.mp h
    obtain ⟨results, hresults⟩ := ih hrest
    exact ⟨_ :: results, .cons hq hresults⟩

/-! ### Runs by themselves -/

namespace Machine

variable {m m' m₁ : Machine} {p q : Proc} {o : Outcome} {began rounds rounds' : ℕ}

/-- Left to itself, the process ends within a number of rounds, and that is how it ends. -/
def SettlesWithin (m : Machine) (p : Proc) (began rounds : ℕ) (m' : Machine) (o : Outcome) : Prop :=
  ∃ ended, ∀ fuel, rounds ≤ fuel →
    settle fuel m (sole p began) = (m', [⟨.settled o, began, none, ended⟩])

namespace SettlesWithin

theorem mono (h : m.SettlesWithin p began rounds m' o) (hle : rounds ≤ rounds') :
    m.SettlesWithin p began rounds' m' o := by
  obtain ⟨ended, hsettle⟩ := h
  exact ⟨ended, fun fuel hfuel ↦ hsettle fuel (hle.trans hfuel)⟩

/-- When nothing can move, the clock jumps. -/
theorem wait (hopen : p.isOpen = true) (hbusy : m.isBusy (sole p began) = false) {t : ℕ}
    (ht : m.bound (wake? p) = some t)
    (h : (m.later (max t m.store.now)).SettlesWithin p began rounds m' o) :
    m.SettlesWithin p began (rounds + 1) m' o := by
  obtain ⟨ended, hsettle⟩ := h
  have hany : (sole p began).any Leg.isOpen = true := by simpa [sole, Leg.isOpen] using hopen
  refine ⟨ended, fun fuel hfuel ↦ ?_⟩
  obtain ⟨fuel, rfl⟩ := Nat.exists_eq_add_of_le' (Nat.one_le_of_lt hfuel)
  rw [settle, hany, hbusy, nextTime?_sole, ht]
  exact hsettle fuel (Nat.le_of_succ_le_succ hfuel)

/-- A round after which the run goes on. -/
theorem turn (hopen : p.isOpen = true) (hbusy : m.isBusy (sole p began) = true)
    (hturn : advance p m.background = (m₁, q)) (hq : q.isOpen = true)
    (h : m₁.SettlesWithin q began rounds m' o) : m.SettlesWithin p began (rounds + 1) m' o := by
  obtain ⟨ended, hsettle⟩ := h
  refine ⟨ended, fun fuel hfuel ↦ ?_⟩
  obtain ⟨fuel, rfl⟩ := Nat.exists_eq_add_of_le' (Nat.one_le_of_lt hfuel)
  rw [settle_turn began hopen hbusy, hturn, if_pos hq]
  exact hsettle fuel (Nat.le_of_succ_le_succ hfuel)

/-- The round in which the run ends. -/
theorem ends (hopen : p.isOpen = true) (hbusy : m.isBusy (sole p began) = true)
    (hturn : advance p m.background = (m₁, .settled o)) : m.SettlesWithin p began 1 m₁ o := by
  refine ⟨some m₁.store.now, fun fuel hfuel ↦ ?_⟩
  obtain ⟨fuel, rfl⟩ := Nat.exists_eq_add_of_le' hfuel
  rw [settle_turn began hopen hbusy, hturn]
  exact settle_settled began m₁ o _ fuel

/-- A run that ends within the rounds that a call may take is completed. -/
theorem complete {prog : Prog} (h : m.SettlesWithin (.fresh prog) m.store.now rounds m' o)
    (hrounds : rounds ≤ roundLimit) :
    (m.complete prog).1 = o ∧ (m.complete prog).2.2 = m' := by
  obtain ⟨ended, hsettle⟩ := h
  have hleg : [Leg.start prog m.store.now none] = sole (.fresh prog) m.store.now := rfl
  rw [Machine.complete, hleg, hsettle roundLimit hrounds]
  exact ⟨rfl, rfl⟩

end SettlesWithin

end Machine

/-- What a round of the processes left behind does: they have less to do if one of them can move,
and they begin no lookups. -/
theorem Abroad.background {s : Store} {leaves : Prop} {strays : List (Proc × ℕ)} {m : Machine}
    (h : Abroad s leaves strays) (hm : s.Stands m) (hstrays : m.strays = strays.map Prod.fst) :
    ∃ strays', m.background.strays = strays'.map Prod.fst ∧ Abroad s leaves strays' ∧
      s.Stands m.background ∧ m.background.store.now = m.store.now ∧
      m.background.store.lookups = m.store.lookups ∧
      (strays'.map Prod.snd).sum ≤ (strays.map Prod.snd).sum ∧
      (m.anyCanMove m.strays = true →
        (strays'.map Prod.snd).sum < (strays.map Prod.snd).sum) := by
  have htasks : Machine.advanceTasks m = m := by
    rw [Machine.advanceTasks, hm.tasks]
    rfl
  have hbare : s.Stands { m with strays := [] } :=
    ⟨hm.types, hm.futures, hm.tasks, hm.size_le, hm.records⟩
  obtain ⟨results, herrands⟩ := h.errands
  obtain ⟨st, hleft, hnext⟩ := herrands.turn hbare
  have hdeed := hleft.of.deed
  obtain ⟨hbegun, htodo⟩ : st.begun = [] ∧ st.todo = 0 := by
    have hsum := hleft.of.todo_eq
    have hbegun : (st.begun : Multiset Value) = 0 :=
      Multiset.le_zero.mp (hsum ▸ Multiset.le_add_right _ _)
    rw [hbegun, zero_add] at hsum
    exact ⟨Multiset.coe_eq_zero _ |>.mp hbegun, hsum⟩
  rw [htodo] at hnext
  obtain ⟨open', hmap, habroad, hopen⟩ := hnext.exists_abroad
  have htotal : ((open' ++ st.behind).map Prod.snd).sum ≤ st.total := by
    rw [List.map_append, List.sum_append]
    exact Nat.add_le_add_right hopen _
  have hround : m.background = { (Machine.advanceAll m.strays { m with strays := [] }).1 with
      strays := (Machine.advanceAll m.strays { m with strays := [] }).2.filter Proc.isOpen ++
        (Machine.advanceAll m.strays { m with strays := [] }).1.strays } := by
    rw [Machine.background, htasks, Machine.advanceStrays]
  rw [← hstrays] at hdeed hmap hleft
  rw [hround]
  refine ⟨open' ++ st.behind, ?_, List.forall_mem_append.mpr ⟨habroad, hleft.abroad⟩, ?_,
    hdeed.now_eq, ?_, htotal.trans hleft.total_le, fun hcan ↦ htotal.trans_lt (hleft.total_lt ?_)⟩
  · rw [List.map_append, hmap, hdeed.strays_eq]
    rfl
  · exact ⟨hdeed.stands.types, hdeed.stands.futures, hdeed.stands.tasks, hdeed.stands.size_le,
      hdeed.stands.records⟩
  · exact hdeed.lookups_eq.trans (by rw [hbegun, List.append_nil])
  · have hnow : ({ m with strays := [] } : Machine).store.now = m.store.now := rfl
    exact (Machine.anyCanMove_congr hnow rfl m.strays).trans hcan

/-- A call with what it has left behind: all turns left are at most so many, and a fact holds of the
call unless something may have been left behind. -/
structure Errand.Out (s : Store) (leaves : Prop) (result : Outcome → Prop)
    (fact : Machine → Proc → Prop) (total : ℕ) (todo : Multiset Value) (m : Machine) (p : Proc) :
    Prop where
  stands : s.Stands m
  errand : ∃ turns strays, Errand s leaves result turns todo p ∧ Abroad s leaves strays ∧
    m.strays = strays.map Prod.fst ∧ turns + (strays.map Prod.snd).sum = total
  alone : ¬ leaves → m.strays = [] ∧ fact m p

namespace Errand.Out

variable {s : Store} {leaves : Prop} {result : Outcome → Prop} {fact : Machine → Proc → Prop}
  {total : ℕ} {todo : Multiset Value} {m : Machine} {p : Proc}

theorem later (h : Out s leaves result fact total todo m p)
    (hlater : ∀ m p now, s.Stands m → fact m p → fact (m.later now) p) (now : ℕ) :
    Out s leaves result fact total todo (m.later now) p where
  stands := h.stands.later now
  errand := h.errand
  alone hnot := ⟨(h.alone hnot).1, hlater m p now h.stands (h.alone hnot).2⟩

theorem isBusy_eq_false_iff (h : Out s leaves result fact total todo m p) (began : ℕ) :
    m.isBusy (Machine.sole p began) = false ↔
      m.anyCanMove m.strays = false ∧ m.canMove p = false := by
  rw [Machine.isBusy_sole_eq_false_iff, Machine.IsQuiet, h.stands.tasks]
  simp [Machine.anyCanMove]

/-- When nothing can move, something wakes, and then it can move. -/
theorem exists_wake (h : Out s leaves result fact total todo m p) (hopen : p.isOpen = true)
    (began : ℕ) (hbusy : m.isBusy (Machine.sole p began) = false) :
    ∃ t, m.bound (Machine.wake? p) = some t ∧
      (m.later (max t m.store.now)).isBusy (Machine.sole p began) = true := by
  obtain ⟨hstrays, hp⟩ := (h.isBusy_eq_false_iff began).mp hbusy
  obtain ⟨turns, strays, herrand, _⟩ := h.errand
  have hwakes := herrand.wakes hopen h.stands hp
  have hbound : m.bound (Machine.wake? p) =
      Machine.earlier (Machine.firstWake? m.strays) (Machine.wake? p) := by
    rw [Machine.bound, h.stands.tasks]
    rfl
  obtain ⟨t, ht⟩ := Option.ne_none_iff_exists'.mp
    ((Machine.earlier_ne_none_iff (Machine.firstWake? m.strays) _).mpr (Or.inr hwakes))
  refine ⟨t, hbound.trans ht, Bool.of_not_eq_false fun hidle ↦ ?_⟩
  have hle : t ≤ (m.later (max t m.store.now)).store.now := le_max_left _ _
  simp only [Machine.isBusy, Bool.or_eq_false_iff] at hidle
  rcases Machine.mem_earlier (Option.mem_def.mpr ht) with hmem | hmem
  · exact absurd (Machine.anyCanMove_of_firstWake? _ hmem hle) (Bool.eq_false_iff.mp hidle.1.2)
  · have hmoves := Machine.canMove_of_wake? p hmem hle
    have hnot : (m.later (max t m.store.now)).anyCanMove [p] = false := hidle.2
    simp [Machine.anyCanMove, hmoves] at hnot

/-- A round in which something moves leaves less to do. -/
theorem round (h : Out s leaves result fact total todo m p) (began : ℕ)
    (hadvance : ∀ m p, s.Stands m → fact m p → fact (Machine.advance p m).1 (Machine.advance p m).2)
    (hbusy : m.isBusy (Machine.sole p began) = true) :
    ∃ (begun : List Value) (todo' : Multiset Value) (total' : ℕ), total' < total ∧
      (begun : Multiset Value) + todo' = todo ∧
      (Machine.advance p m.background).1.store.lookups = m.store.lookups ++ begun ∧
      Out s leaves result fact total' todo' (Machine.advance p m.background).1
        (Machine.advance p m.background).2 := by
  obtain ⟨turns, strays, herrand, habroad, hstrays, rfl⟩ := h.errand
  obtain ⟨strays', hstrays', habroad', hstands, hnow, hlookups, hle, hlt⟩ :=
    habroad.background h.stands hstrays
  obtain ⟨st, hleft, hnext⟩ := herrand.turn hstands
  have hcan := Machine.canMove_congr hnow (hstands.futures.trans h.stands.futures.symm) p
  rw [hcan] at hleft
  have hdeed := hleft.of.deed
  refine ⟨st.begun, st.todo, st.turns + ((strays' ++ st.behind).map Prod.snd).sum, ?_,
    hleft.of.todo_eq, hdeed.lookups_eq.trans (by rw [hlookups]), hdeed.stands,
    ⟨st.turns, strays' ++ st.behind, hnext, ?_, ?_, rfl⟩, fun hnot ↦ ?_⟩
  · have htotal : st.turns + ((strays' ++ st.behind).map Prod.snd).sum =
        st.total + (strays'.map Prod.snd).sum := by
      rw [List.map_append, List.sum_append, Stint.total]
      omega
    rw [htotal]
    have hmoves : m.anyCanMove m.strays = true ∨ m.canMove p = true := by
      by_contra hnone
      simp only [not_or, Bool.not_eq_true] at hnone
      cases hbusy.symm.trans ((h.isBusy_eq_false_iff began).mpr hnone)
    rcases hmoves with hmoves | hmoves
    · exact Nat.add_lt_add_of_le_of_lt hleft.total_le (hlt hmoves)
    · exact Nat.add_lt_add_of_lt_of_le (hleft.total_lt hmoves) hle
  · exact List.forall_mem_append.mpr ⟨habroad', hleft.abroad⟩
  · rw [hdeed.strays_eq, hstrays', List.map_append]
  · obtain ⟨hnone, hfact⟩ := h.alone hnot
    have hsame := h.stands.background_eq hnone
    have hbehind : st.behind = [] := by
      by_contra hne
      exact hnot (hleft.of.leaves_of_behind hne)
    rw [hsame] at hdeed ⊢
    refine ⟨?_, hadvance m p h.stands hfact⟩
    rw [hdeed.strays_eq, hnone, hbehind]
    rfl

/-- The call has ended in a result, all its lookups have begun, and what it has left behind begins
no more. -/
structure Ended (s : Store) (leaves : Prop) (result : Outcome → Prop) (fact : Machine → Proc → Prop)
    (total : ℕ) (todo : Multiset Value) (m m' : Machine) (o : Outcome) : Prop where
  result : result o
  stands : s.Stands m'
  lookups : ∃ begun : List Value,
    m'.store.lookups = m.store.lookups ++ begun ∧ (begun : Multiset Value) = todo
  strays : ∃ strays, Abroad s leaves strays ∧ m'.strays = strays.map Prod.fst ∧
    (strays.map Prod.snd).sum ≤ total
  alone : ¬ leaves → m'.strays = [] ∧ fact m' (.settled o)

theorem Ended.mono {total' : ℕ} {m' : Machine} {o : Outcome}
    (h : Ended s leaves result fact total todo m m' o) (hle : total ≤ total') :
    Ended s leaves result fact total' todo m m' o := by
  obtain ⟨strays, habroad, hstrays, hsum⟩ := h.strays
  exact { h with strays := ⟨strays, habroad, hstrays, hsum.trans hle⟩ }

/-- Left to itself, a call on an errand ends in a result, and by then it has begun its lookups. The
rounds that it takes at most are known beforehand. -/
theorem settles (h : Out s leaves result fact total todo m p) (began : ℕ)
    (hadvance : ∀ m p, s.Stands m → fact m p → fact (Machine.advance p m).1 (Machine.advance p m).2)
    (hlater : ∀ m p now, s.Stands m → fact m p → fact (m.later now) p) (hopen : p.isOpen = true) :
    ∃ m' o, m.SettlesWithin p began (2 * total + 1) m' o ∧
      Ended s leaves result fact total todo m m' o := by
  induction total using Nat.strong_induction_on generalizing m p todo with
  | _ total ih =>
    have hround : ∀ m, Out s leaves result fact total todo m p →
        m.isBusy (Machine.sole p began) = true →
        ∃ m' o, m.SettlesWithin p began (2 * total) m' o ∧
          Ended s leaves result fact total todo m m' o := by
      intro m h hbusy
      obtain ⟨begun, todo', total', hlt, htodo, hlookups, hnext⟩ := h.round began hadvance hbusy
      rcases hturn : Machine.advance p m.background with ⟨m₁, q⟩
      rw [hturn] at hlookups hnext
      cases hq : q.isOpen with
      | false =>
        obtain ⟨o, rfl⟩ := Proc.isOpen_eq_false_iff.mp hq
        obtain ⟨_, strays, herrand, habroad, hstrays, htotal⟩ := hnext.errand
        obtain ⟨rfl, ho⟩ := herrand.of_settled
        rw [add_zero] at htodo
        exact ⟨m₁, o, (Machine.SettlesWithin.ends hopen hbusy hturn).mono (by omega), ho,
          hnext.stands, ⟨begun, hlookups, htodo⟩, ⟨strays, habroad, hstrays, by omega⟩,
          hnext.alone⟩
      | true =>
        obtain ⟨m', o, hsettles, hended⟩ := ih total' hlt hnext hq
        obtain ⟨begun', hlookups', htodo'⟩ := hended.lookups
        refine ⟨m', o, (hsettles.turn hopen hbusy hturn hq).mono (by omega),
          { hended.mono hlt.le with lookups := ⟨begun ++ begun', ?_, ?_⟩ }⟩
        · rw [hlookups', hlookups, List.append_assoc]
        · rw [← Multiset.coe_add, htodo', htodo]
    cases hbusy : m.isBusy (Machine.sole p began) with
    | true =>
      obtain ⟨m', o, hsettles, hended⟩ := hround m h hbusy
      exact ⟨m', o, hsettles.mono (Nat.le_succ _), hended⟩
    | false =>
      obtain ⟨t, ht, hwoken⟩ := h.exists_wake hopen began hbusy
      obtain ⟨m', o, hsettles, hended⟩ := hround _ (h.later hlater _) hwoken
      exact ⟨m', o, hsettles.wait hopen hbusy ht, { hended with }⟩

end Errand.Out

end Recast
