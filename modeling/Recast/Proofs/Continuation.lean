import Recast.Mapping.Compute
import Recast.Process.Round
import Mathlib.Data.Nat.Notation

/-!
Going on with an outcome. A program that is followed by another runs as the first and then as the
second, from the machine that the first leaves (`Machine.run_bind`); where the first has to wait,
what is left of it is followed by the second. This is what lets the run of a rule be told from the
run of its compute.
-/

set_option autoImplicit false

namespace Recast

/-! ### Programs and processes -/

theorem Prog.bind_assoc (p : Prog) (f g : Outcome → Prog) :
    (p.bind f).bind g = p.bind fun o ↦ (f o).bind g := by
  fun_induction Prog.bind p f <;> simp_all only [Prog.bind]

theorem Proc.bind_assoc (p : Proc) (f g : Outcome → Prog) :
    (p.bind f).bind g = p.bind fun o ↦ (f o).bind g := by
  cases p <;> simp only [Proc.bind, Prog.bind_assoc]

/-- A process that is to go on has not ended. -/
theorem Proc.bind_ne_settled (p : Proc) (f : Outcome → Prog) (o : Outcome) :
    p.bind f ≠ .settled o := by
  cases p <;> exact nofun

/-! ### What leaves a coroutine -/

/-- The fault is the one by which an iteration stops. -/
def Raised.StopsIteration (e : Raised) : Prop := ∃ args, e.fault = .general "StopIteration" args

theorem not_stopsIteration_general (id : ℕ) (kind : String) (args : List Value)
    (h : kind ≠ "StopIteration") : ¬ (Raised.mk id (.general kind args)).StopsIteration := by
  rintro ⟨args', hargs⟩
  exact h (Fault.general.inj hargs).1

theorem not_stopsIteration_await (id : ℕ) (a : AwaitError) :
    ¬ (Raised.mk id (.await a)).StopsIteration := by
  rintro ⟨args, hargs⟩
  cases hargs

theorem Prog.guarded_eq {o : Outcome} (h : ∀ e, o = .error e → ¬ e.StopsIteration) :
    Prog.guarded o = .done o := by
  unfold Prog.guarded
  split
  next id args => exact absurd ⟨args, rfl⟩ (h ⟨id, .general "StopIteration" args⟩ rfl)
  next => rfl

/-- What leaves a coroutine whose body ended in an outcome. -/
inductive LetOut : Outcome → Outcome → Prop
  | same {o : Outcome} (h : ∀ e, o = .error e → ¬ e.StopsIteration) : LetOut o o
  | stopped {e : Raised} (h : e.StopsIteration) (id : ℕ) :
    LetOut (.error e) (.error ⟨id, .await .stoppedIteration⟩)

namespace Machine

/-! ### Running what follows -/

/-- Go on with the outcome of a run that has ended; else add what is to follow. -/
def goOnWith (enter : Prog → Machine → Machine × Proc) (f : Outcome → Prog) :
    Machine × Proc → Machine × Proc
  | (m, .settled o) => execWith enter (f o) m
  | (m, p) => (m, p.bind f)

theorem goOnWith_bind (enter : Prog → Machine → Machine × Proc) (f g : Outcome → Prog) (m : Machine)
    (p : Proc) : goOnWith enter g (m, p.bind f) = (m, p.bind fun o ↦ (f o).bind g) := by
  rw [← Proc.bind_assoc]
  cases p <;> rfl

theorem execWith_bind (enter : Prog → Machine → Machine × Proc) (p : Prog) (f : Outcome → Prog)
    (m : Machine) : execWith enter (p.bind f) m = goOnWith enter f (execWith enter p m) := by
  fun_induction Prog.bind p f generalizing m with
  | case1 o f => rfl
  | case2 a k f ih => simp only [execWith, ih]
  | case3 ms k f ih => rfl
  | case4 v k f ih =>
    cases v with
    | awaitable kind i =>
      cases kind with
      | coroutine =>
        simp only [execWith]
        split
        · split <;> simp_all [goOnWith_bind, closing, Prog.bind]
          rfl
        · exact ih _ _
        · exact ih _ _
      | custom =>
        simp only [execWith]
        split <;> simp_all [goOnWith_bind]
      | task | future =>
        simp only [execWith]
        split
        · exact ih _ _
        · rfl
    | _ => exact ih _ _
  | case5 c t k f ih =>
    simp only [execWith]
    split
    · split <;> simp_all [goOnWith_bind, closing, Prog.bind]
      rfl
    · rfl
    · exact ih _ _
  | case6 parts k f ih | case7 parts k f ih =>
    simp only [execWith]
    split
    · exact ih _ _
    · rfl
  | case8 g args k f ih =>
    simp only [execWith]
    split
    · exact ih _ _
    · split
      · exact ih _ _
      · split <;> simp_all [goOnWith_bind]
  | case9 kind delay body k f ih =>
    cases kind with
    | coroutine | task | custom => exact ih _ _
    | future => cases delay <;> exact ih _ _
  | case10 v k f ih =>
    cases v with
    | awaitable kind i => cases kind <;> exact ih _ _
    | _ => exact ih _ _
  | case11 v k f ih => exact ih _

/-- Go on with the outcome of a run that has ended; else add what is to follow. -/
def goOn (f : Outcome → Prog) : Machine × Proc → Machine × Proc
  | (m, .settled o) => m.run (f o)
  | (m, p) => (m, p.bind f)

/-- A program that is followed by another runs as the first, then as the second. -/
theorem run_bind (p : Prog) (f : Outcome → Prog) (m : Machine) :
    m.run (p.bind f) = goOn f (m.run p) :=
  execWith_bind (exec (depthLimit - 1)) p f m

theorem goOn_of_ne {f : Outcome → Prog} {m : Machine} {p : Proc} (h : ∀ o, p ≠ .settled o) :
    goOn f (m, p) = (m, p.bind f) := by
  cases p with
  | settled o => exact absurd rfl (h o)
  | _ => rfl

/-- When a program that is followed by another has ended, both have. -/
theorem exists_of_run_bind {p : Prog} {f : Outcome → Prog} {m m' : Machine} {o : Outcome}
    (h : m.run (p.bind f) = (m', .settled o)) :
    ∃ m₁ o₁, m.run p = (m₁, .settled o₁) ∧ m₁.run (f o₁) = (m', .settled o) := by
  rw [run_bind] at h
  generalize m.run p = t at h
  obtain ⟨m₁, q⟩ := t
  by_cases hended : ∃ o₁, q = .settled o₁
  · obtain ⟨o₁, rfl⟩ := hended
    exact ⟨m₁, o₁, rfl, h⟩
  · rw [goOn_of_ne fun o₁ ho ↦ hended ⟨o₁, ho⟩] at h
    exact absurd (Prod.mk.inj h).2 (q.bind_ne_settled f o)

@[simp] theorem run_done (o : Outcome) (m : Machine) : m.run (.done o) = (m, .settled o) := rfl

@[simp] theorem run_give (v : Value) (m : Machine) :
    m.run (Prog.give v) = (m, .settled (.ok v)) := rfl

@[simp] theorem run_raise (e : Raised) (m : Machine) :
    m.run (Prog.raise e) = (m, .settled (.error e)) := rfl

theorem run_act (a : Action Value) (k : Outcome → Prog) (m : Machine) :
    m.run (.act a k) = (m.act a).2.run (k (m.act a).1) := rfl

@[simp] theorem run_ofAction (a : Action Value) (m : Machine) :
    m.run (Prog.ofAction a) = ((m.act a).2, .settled (m.act a).1) := rfl

/-- What leaves a coroutine leaves it at once; at most one fault more is made. -/
theorem run_guarded (o : Outcome) (m : Machine) :
    ∃ id o', m.run (Prog.guarded o) =
        ({ m with store := { m.store with nextId := id } }, .settled o') ∧ LetOut o o' := by
  by_cases h : ∃ e, o = .error e ∧ e.StopsIteration
  · obtain ⟨⟨id, fault⟩, rfl, args, rfl⟩ := h
    exact ⟨_, _, rfl, .stopped ⟨args, rfl⟩ _⟩
  · have hsame : ∀ e, o = .error e → ¬ e.StopsIteration := fun e he hstops ↦ h ⟨e, he, hstops⟩
    rw [Prog.guarded_eq hsame]
    exact ⟨m.store.nextId, o, rfl, .same hsame⟩

theorem run_gather {parts : List Prog} (h : parts ≠ []) (k : Option (List Outcome) → Prog)
    (m : Machine) : m.run (.gather parts k) = (m, .joining false (parts.map .fresh) k) := by
  change execWith _ _ _ = _
  rw [execWith, if_neg (by simpa using h)]

end Machine

end Recast
