import Recast.Proofs.Course
import Recast.Proofs.Turn

/-!
Ending in time, in company. While a process waits, others work on the machine, and when nothing can
move the clock passes on, though not past a time at which something wakes (`Company`). A process is
due at a time when it ends at exactly that time, whatever the company does (`Company.Due`).
Processes side by side have all ended when the last of them is due (`Company.Due.cons`).
-/

set_option autoImplicit false

namespace Recast

namespace Machine

/-! ### The clock -/

/-- A round of everything that is not waited for from outside. -/
def background (m : Machine) : Machine := advanceStrays (advanceTasks m)

/-- Nothing in the background can move. -/
def IsQuiet (m : Machine) : Prop :=
  anyCanMove m m.tasks.toList = false ∧ anyCanMove m m.strays = false

/-- The next time at which something wakes, in the background or otherwise. -/
def bound (m : Machine) (wake : Option ℕ) : Option ℕ :=
  earlier (firstWake? m.tasks.toList) (earlier (firstWake? m.strays) wake)

/-- The clock may pass on to a time. -/
def MayPass (m : Machine) (wake : Option ℕ) (now : ℕ) : Prop :=
  m.store.now < now ∧ ∀ t ∈ m.bound wake, now ≤ t

theorem earlier_none (a : Option ℕ) : earlier a none = a := by
  cases a <;> rfl

theorem earlier_ne_none_iff (a b : Option ℕ) : earlier a b ≠ none ↔ a ≠ none ∨ b ≠ none := by
  cases a <;> cases b <;> simp [earlier]

theorem forall_mem_earlier_iff (a b : Option ℕ) (now : ℕ) :
    (∀ t ∈ earlier a b, now ≤ t) ↔ (∀ t ∈ a, now ≤ t) ∧ ∀ t ∈ b, now ≤ t := by
  cases a <;> cases b <;> simp [earlier]

theorem mayPass_earlier_iff (m : Machine) (a b : Option ℕ) (now : ℕ) :
    m.MayPass (earlier a b) now ↔ m.MayPass a now ∧ m.MayPass b now := by
  simp only [MayPass, bound, forall_mem_earlier_iff]
  tauto

/-- Something wakes at some time, or else something wakes in the background. -/
theorem bound_earlier_ne_none {m : Machine} {a : Option ℕ} (b : Option ℕ) (h : m.bound a ≠ none) :
    m.bound (earlier a b) ≠ none := by
  simp only [bound, earlier_ne_none_iff] at h ⊢
  tauto

mutual

/-- What cannot move wakes later. -/
theorem lt_of_canMove {m : Machine} :
    ∀ p : Proc, canMove m p = false → ∀ t ∈ wake? p, m.store.now < t
  | .settled _, _, _, ht | .fresh _, _, _, ht | .ready _ _, _, _, ht | .awaiting _ _, _, _, ht =>
    nomatch ht
  | .sleeping _ _, h, _, ht => Option.mem_some.mp ht ▸ not_le.mp (of_decide_eq_false h)
  | .joining _ parts _, h, t, ht | .racing parts _, h, t, ht => lt_of_anyCanMove parts h t ht

theorem lt_of_anyCanMove {m : Machine} :
    ∀ ps : List Proc, anyCanMove m ps = false → ∀ t ∈ firstWake? ps, m.store.now < t
  | [], _, _, ht => nomatch ht
  | p :: rest, h, t, ht => by
    obtain ⟨hp, hrest⟩ := Bool.or_eq_false_iff.mp h
    exact (forall_mem_earlier_iff _ _ (m.store.now + 1)).mpr
      ⟨lt_of_canMove p hp, lt_of_anyCanMove rest hrest⟩ t ht

end

theorem anyCanMove_map_settled (m : Machine) (os : List Outcome) :
    anyCanMove m (os.map .settled) = false := by
  induction os with
  | nil => rfl
  | cons o rest ih => exact ih

theorem firstWake?_map_settled (os : List Outcome) : firstWake? (os.map .settled) = none := by
  induction os with
  | nil => rfl
  | cons o rest ih => exact ih

end Machine

theorem Proc.isOpen_eq_false_iff {p : Proc} : p.isOpen = false ↔ ∃ o, p = .settled o := by
  cases p <;> simp [isOpen, outcome?]

theorem Proc.isOpen_eq_true_iff {p : Proc} : p.isOpen = true ↔ ∀ o, p ≠ .settled o := by
  cases p <;> simp [isOpen, outcome?]

theorem Proc.any_isOpen_eq_false_iff {parts : List Proc} :
    parts.any isOpen = false ↔ ∃ os : List Outcome, parts = os.map .settled := by
  constructor
  · intro h
    exact exists_map_settled fun p hp ↦
      isOpen_eq_false_iff.mp (by simpa using List.any_eq_false.mp h p hp)
  · rintro ⟨os, rfl⟩
    simp [isOpen, outcome?]

/-- What a process meets while it waits: a fact that always holds, and what may happen to the
machine while the clock stands still. Among this are changes above a position of the store and what
the background does, which comes to rest. -/
structure Company extends Surroundings where
  work : Machine → Machine → Prop
  refl : ∀ {m : Machine}, holds m → work m m
  trans : ∀ {m m' m'' : Machine}, work m m' → work m' m'' → work m m''
  holds_of_work : ∀ {m m' : Machine}, holds m → work m m' → holds m'
  now_eq : ∀ {m m' : Machine}, work m m' → m'.store.now = m.store.now
  own : ∀ {m : Machine} {s : Store}, holds m → m.store.SameBelow base s →
    work m { m with store := s }
  passes : ∀ {m : Machine} {now : ℕ}, holds m → holds (m.later now)
  background : ∀ {m : Machine}, holds m → work m m.background
  rests : ∀ {m : Machine}, holds m → ∃ n, (Machine.background^[n] m).IsQuiet

/-- What takes turns and may sleep in between. -/
structure Mover (α : Type) where
  isOpen : α → Bool
  canMove : Machine → α → Bool
  advance : α → Machine → Machine × α
  wake? : α → Option ℕ

namespace Mover

/-- A process. -/
def proc : Mover Proc := ⟨Proc.isOpen, Machine.canMove, Machine.advance, Machine.wake?⟩

/-- Processes that take their turns in order. -/
def all : Mover (List Proc) :=
  ⟨fun ps ↦ ps.any Proc.isOpen, Machine.anyCanMove, Machine.advanceAll, Machine.firstWake?⟩

@[simp] theorem advance_proc (p : Proc) (m : Machine) :
    proc.advance p m = Machine.advance p m := rfl

@[simp] theorem wake?_proc (p : Proc) : proc.wake? p = Machine.wake? p := rfl

@[simp] theorem advance_all (ps : List Proc) (m : Machine) :
    all.advance ps m = Machine.advanceAll ps m := rfl

theorem advance_all_cons (p : Proc) (ps : List Proc) (m : Machine) :
    all.advance (p :: ps) m = ((all.advance ps (Machine.advance p m).1).1,
      (Machine.advance p m).2 :: (all.advance ps (Machine.advance p m).1).2) := rfl

/-- What has ended does nothing. -/
structure LetsRest {α : Type} (M : Mover α) : Prop where
  canMove {a : α} (h : M.isOpen a = false) (m : Machine) : M.canMove m a = false
  advance {a : α} (h : M.isOpen a = false) (m : Machine) : M.advance a m = (m, a)
  wake {a : α} (h : M.isOpen a = false) : M.wake? a = none

theorem letsRest_all : all.LetsRest where
  canMove h m := by
    obtain ⟨os, rfl⟩ := Proc.any_isOpen_eq_false_iff.mp h
    exact Machine.anyCanMove_map_settled m os
  advance h m := by
    obtain ⟨os, rfl⟩ := Proc.any_isOpen_eq_false_iff.mp h
    exact Machine.advanceAll_map_settled os m
  wake h := by
    obtain ⟨os, rfl⟩ := Proc.any_isOpen_eq_false_iff.mp h
    exact Machine.firstWake?_map_settled os

end Mover

namespace Company

/-- In company, it ends at a certain time and not before: it has ended and the time has come, or it
is open and the time has not passed. In the latter case, whatever the company does, it can move or
it waits. If it can move it still can when the company has done more, and what it does is what the
company allows. If it waits, its turns change nothing, and something wakes at some time. -/
inductive Due (E : Company) {α : Type} (M : Mover α) (due : ℕ) : Machine → α → Prop
  | ended {m : Machine} {a : α} (hended : M.isOpen a = false) (hdue : due ≤ m.store.now) :
    Due E M due m a
  | going {m : Machine} {a : α} (hopen : M.isOpen a = true) (hdue : m.store.now ≤ due)
      (hstays : ∀ m' m'', E.work m m' → E.work m' m'' → M.canMove m' a = true →
        M.canMove m'' a = true)
      (hallowed : ∀ m', E.work m m' → M.canMove m' a = true → E.work m' (M.advance a m').1)
      (hmove : ∀ m', E.work m m' → M.canMove m' a = true →
        Due E M due (M.advance a m').1 (M.advance a m').2)
      (hstill : ∀ m', E.work m m' → M.canMove m' a = false → M.advance a m' = (m', a))
      (hwakes : ∀ m', E.work m m' → M.canMove m' a = false → m'.IsQuiet →
        m'.bound (M.wake? a) ≠ none)
      (hwait : ∀ m' now, E.work m m' → M.canMove m' a = false → m'.IsQuiet →
        m'.MayPass (M.wake? a) now → Due E M due (m'.later now) a) :
    Due E M due m a

namespace Due

variable {E : Company} {α : Type} {M : Mover α} {due due' : ℕ} {m m' : Machine} {a : α} {p : Proc}
  {parts : List Proc}

/-- The company does not change when it is due. -/
theorem work (h : E.Due M due m a) (hwork : E.work m m') : E.Due M due m' a := by
  cases h with
  | ended hended hdue => exact .ended hended (E.now_eq hwork ▸ hdue)
  | going hopen hdue hstays hallowed hmove hstill hwakes hwait =>
    exact .going hopen (E.now_eq hwork ▸ hdue)
      (fun _ _ h ↦ hstays _ _ (E.trans hwork h)) (fun _ h ↦ hallowed _ (E.trans hwork h))
      (fun _ h ↦ hmove _ (E.trans hwork h)) (fun _ h ↦ hstill _ (E.trans hwork h))
      (fun _ h ↦ hwakes _ (E.trans hwork h)) fun _ _ h ↦ hwait _ _ (E.trans hwork h)

section

variable (hM : M.LetsRest) (h : E.Due M due m a)

include hM h

/-- A turn is what the company allows, and it does not change when it is due. -/
theorem turn (hm : E.holds m) (hwork : E.work m m') :
    E.work m' (M.advance a m').1 ∧ E.Due M due (M.advance a m').1 (M.advance a m').2 := by
  have hrest : M.advance a m' = (m', a) →
      E.work m' (M.advance a m').1 ∧ E.Due M due (M.advance a m').1 (M.advance a m').2 :=
    fun hsame ↦ hsame ▸ ⟨E.refl (E.holds_of_work hm hwork), h.work hwork⟩
  cases h with
  | ended hended _ => exact hrest (hM.advance hended m')
  | going _ _ _ hallowed hmove hstill =>
    cases hcan : M.canMove m' a with
    | true => exact ⟨hallowed m' hwork hcan, hmove m' hwork hcan⟩
    | false => exact hrest (hstill m' hwork hcan)

theorem stays {m'' : Machine} (hwork : E.work m m') (hwork' : E.work m' m'')
    (hcan : M.canMove m' a = true) : M.canMove m'' a = true := by
  cases h with
  | ended hended => exact absurd (hM.canMove hended m') (by simp [hcan])
  | going _ _ hstays => exact hstays m' m'' hwork hwork' hcan

theorem still (hwork : E.work m m') (hcan : M.canMove m' a = false) :
    M.advance a m' = (m', a) := by
  cases h with
  | ended hended => exact hM.advance hended m'
  | going _ _ _ _ _ hstill => exact hstill m' hwork hcan

omit hM in
theorem wait {now : ℕ} (hwork : E.work m m') (hcan : M.canMove m' a = false)
    (hquiet : m'.IsQuiet) (hpass : m'.MayPass (M.wake? a) now) : E.Due M due (m'.later now) a := by
  cases h with
  | ended hended hdue =>
    refine .ended hended (hdue.trans ?_)
    rw [← E.now_eq hwork]
    exact hpass.1.le
  | going _ _ _ _ _ _ _ hwait => exact hwait m' now hwork hcan hquiet hpass

end

/-- Beside a process that has ended, the others are due as they are by themselves. -/
theorem cons_settled {o : Outcome} (h : E.Due .all due' m parts) (hp : due ≤ m.store.now) :
    E.Due .all (max due due') m (.settled o :: parts) := by
  induction h with
  | ended hended hdue => exact .ended hended (max_le hp hdue)
  | going hopen hdue hstays hallowed _ hstill hwakes _ ihmove ihwait =>
    refine .going hopen (hdue.trans (le_max_right _ _)) hstays hallowed (fun m' hwork hcan ↦ ?_)
      (fun m' hwork hcan ↦ ?_) hwakes fun m' now hwork hcan hquiet hpass ↦ ?_
    · refine ihmove m' hwork hcan ?_
      rw [E.now_eq (hallowed m' hwork hcan), E.now_eq hwork]
      exact hp
    · rw [Mover.advance_all_cons, Machine.advance, hstill m' hwork hcan]
    · refine ihwait m' now hwork hcan hquiet hpass (hp.trans ?_)
      rw [← E.now_eq hwork]
      exact hpass.1.le

/-- Beside a process that goes on, others are due as they are by themselves, if this is so after
each step of the process, and after each step of the others in which the process waits. -/
theorem cons_going (hm : E.holds m) (hopen : p.isOpen = true) (hdue : m.store.now ≤ due)
    (hstays : ∀ m₁ m₂, E.work m m₁ → E.work m₁ m₂ → m₁.canMove p = true → m₂.canMove p = true)
    (hallowed : ∀ m₁, E.work m m₁ → m₁.canMove p = true → E.work m₁ (Machine.advance p m₁).1)
    (hstill : ∀ m₁, E.work m m₁ → m₁.canMove p = false → Machine.advance p m₁ = (m₁, p))
    (hwakes : ∀ m₁, E.work m m₁ → m₁.canMove p = false → m₁.IsQuiet →
      m₁.bound (Machine.wake? p) ≠ none)
    (hmove : ∀ m₁ m₂ others, E.work m m₁ → m₁.canMove p = true →
      E.work (Machine.advance p m₁).1 m₂ → E.Due .all due' m₂ others →
      E.Due .all (max due due') m₂ ((Machine.advance p m₁).2 :: others))
    (hwait : ∀ m₁ now others, E.work m m₁ → m₁.canMove p = false → m₁.IsQuiet →
      m₁.MayPass (Machine.wake? p) now → E.Due .all due' (m₁.later now) others →
      E.Due .all (max due due') (m₁.later now) (p :: others))
    (hparts : E.Due .all due' m parts)
    (hothers : ∀ m₁, E.work m m₁ → m₁.canMove p = false → m₁.anyCanMove parts = true →
      E.Due .all (max due due') (Machine.advanceAll parts m₁).1
        (p :: (Machine.advanceAll parts m₁).2)) :
    E.Due .all (max due due') m (p :: parts) := by
  have hrest := Mover.letsRest_all
  have hfirst : ∀ m₁, E.work m m₁ → E.work m₁ (Machine.advance p m₁).1 := by
    intro m₁ hwork
    cases hp : m₁.canMove p with
    | true => exact hallowed m₁ hwork hp
    | false => exact hstill m₁ hwork hp ▸ E.refl (E.holds_of_work hm hwork)
  have hthen : ∀ m₁, E.work m m₁ → _ := fun m₁ hwork ↦
    hparts.turn hrest hm (E.trans hwork (hfirst m₁ hwork))
  refine .going (by simp [Mover.all, hopen]) (hdue.trans (le_max_left _ _)) ?_ ?_ ?_ ?_ ?_ ?_
  · intro m₁ m₂ hwork hwork' hcan
    rcases Bool.or_eq_true_iff.mp hcan with hcan | hcan
    · exact Bool.or_eq_true_iff.mpr (Or.inl (hstays m₁ m₂ hwork hwork' hcan))
    · exact Bool.or_eq_true_iff.mpr (Or.inr (hparts.stays hrest hwork hwork' hcan))
  · exact fun m₁ hwork _ ↦ E.trans (hfirst m₁ hwork) (hthen m₁ hwork).1
  · intro m₁ hwork hcan
    cases hp : m₁.canMove p with
    | true => exact hmove m₁ _ _ hwork hp (hthen m₁ hwork).1 (hthen m₁ hwork).2
    | false =>
      have hcan' : m₁.anyCanMove parts = true :=
        (Bool.or_eq_true_iff.mp hcan).resolve_left (by simp [hp])
      rw [Mover.advance_all_cons, hstill m₁ hwork hp]
      exact hothers m₁ hwork hp hcan'
  · intro m₁ hwork hcan
    obtain ⟨hp, hcan'⟩ := Bool.or_eq_false_iff.mp hcan
    rw [Mover.advance_all_cons, hstill m₁ hwork hp, hparts.still hrest hwork hcan']
  · exact fun m₁ hwork hcan hquiet ↦ Machine.bound_earlier_ne_none _
      (hwakes m₁ hwork (Bool.or_eq_false_iff.mp hcan).1 hquiet)
  · intro m₁ now hwork hcan hquiet hpass
    obtain ⟨hp, hcan'⟩ := Bool.or_eq_false_iff.mp hcan
    obtain ⟨hpass, hpass'⟩ := (m₁.mayPass_earlier_iff _ _ _).mp hpass
    exact hwait m₁ now parts hwork hp hquiet hpass (hparts.wait hwork hcan' hquiet hpass')

/-- Processes side by side are due when the last of them is, also when the company has worked. -/
theorem cons_of_work (h : E.Due .proc due m p) (hm : E.holds m) (hwork : E.work m m')
    (hparts : E.Due .all due' m' parts) : E.Due .all (max due due') m' (p :: parts) := by
  induction h generalizing m' parts with
  | ended hended hdue =>
    obtain ⟨o, rfl⟩ := Proc.isOpen_eq_false_iff.mp hended
    exact hparts.cons_settled (E.now_eq hwork ▸ hdue)
  | @going m p hopen hdue hstays hallowed hmove hstill hwakes hwait ihmove ihwait =>
    -- on the steps of the others, for those in which the process waits
    have hgoing : ∀ {m' others}, E.work m m' → E.Due .all due' m' others → _ → _ :=
      fun {m' others} hwork hothers ↦ cons_going (E.holds_of_work hm hwork) hopen
        (E.now_eq hwork ▸ hdue)
        (fun m₁ m₂ h ↦ hstays m₁ m₂ (E.trans hwork h)) (fun m₁ h ↦ hallowed m₁ (E.trans hwork h))
        (fun m₁ h ↦ hstill m₁ (E.trans hwork h)) (fun m₁ h ↦ hwakes m₁ (E.trans hwork h))
        (fun m₁ m₂ others h hcan ↦ ihmove m₁ (E.trans hwork h) hcan
          (E.holds_of_work (E.holds_of_work hm (E.trans hwork h))
            (hallowed m₁ (E.trans hwork h) hcan)))
        (fun m₁ now others h hcan hquiet hpass ↦ ihwait m₁ now (E.trans hwork h) hcan hquiet hpass
          (E.passes (E.holds_of_work hm (E.trans hwork h)))
          (E.refl (E.passes (E.holds_of_work hm (E.trans hwork h))))) hothers
    induction hparts with
    | @ended m' parts hended' hdue' =>
      refine hgoing hwork (.ended hended' hdue') fun m₁ _ _ hcan ↦ ?_
      rw [show m₁.anyCanMove parts = false from Mover.letsRest_all.canMove hended' m₁] at hcan
      cases hcan
    | @going m' parts hopen' hdue' hstays' hallowed' hmove' hstill' hwakes' hwait' ihmove' _ =>
      refine hgoing hwork (.going hopen' hdue' hstays' hallowed' hmove' hstill' hwakes' hwait')
        fun m₁ hwork' _ hcan ↦ ?_
      exact ihmove' m₁ hwork' hcan (E.trans hwork (E.trans hwork' (hallowed' m₁ hwork' hcan)))

/-- Processes side by side are due when the last of them is. -/
theorem cons (h : E.Due .proc due m p) (hm : E.holds m) (hparts : E.Due .all due' m parts) :
    E.Due .all (max due due') m (p :: parts) :=
  h.cons_of_work hm (E.refl hm) hparts

end Due

end Company

end Recast
