import Recast.Proofs.Footing
import Recast.Proofs.WholeTarget
import Mathlib.Data.List.Perm.Basic

/-!
Stories. A story is the list of moves that a process has made, each with the machine before and
after; between them anything may have happened to the machine (`Story.Follows`). The moves of
several parts are those of each, in some order (`Story.perm_flatMap_share`). Of what moves add to
the log, the warnings about failed rules are counted; completing a rule adds nothing
(`Rule.run_complete_plainly`).
-/

set_option autoImplicit false

namespace Recast

/-! ### Completing a rule -/

namespace Action

/-- The action fails in no way that is mistaken for the end of an iteration. -/
def FailsPlainly {α : Type} (a : Action α) : Prop := ∀ s e, (a s).1 = .error e → ¬ e.StopsIteration

variable {α β : Type}

theorem failsPlainly_done (x : α) : FailsPlainly (done x) := nofun

theorem failsPlainly_fail {f : Fault} (h : ∀ kind args, f ≠ .general kind args) :
    FailsPlainly (α := α) (fail f) := by
  rintro s e ⟨⟩ ⟨args, hargs⟩
  exact h _ _ hargs

theorem failsPlainly_bind {x : Action α} {f : α → Action β} (hx : FailsPlainly x)
    (hf : ∀ a, FailsPlainly (f a)) : FailsPlainly (bind x f) := by
  intro s e he
  have hfirst := hx s
  rw [bind] at he
  generalize x s = t at hfirst he
  obtain ⟨e' | a, s'⟩ := t
  · cases he
    exact hfirst e rfl
  · exact hf a s' e he

theorem failsPlainly_readAttribute (v : Value) (name : String) :
    FailsPlainly (readAttribute v name) := by
  intro s e he
  rw [Store.readAttribute_eq] at he
  split at he
  · cases he
  · exact failsPlainly_fail (f := .operand _) (fun _ _ hf ↦ by cases hf) s e he

theorem failsPlainly_followNames (v : Value) (names : List String) :
    FailsPlainly (followNames v names) := by
  induction names generalizing v with
  | nil => exact failsPlainly_done v
  | cons name rest ih => exact failsPlainly_bind (failsPlainly_readAttribute v name) ih

theorem failsPlainly_reach (key : String) (walked : List String) (v : Value) (path : List String) :
    FailsPlainly (reach key walked v path) := by
  induction path generalizing walked v with
  | nil => exact failsPlainly_done v
  | cons step rest ih =>
    refine failsPlainly_bind (failsPlainly_followNames v _) fun w ↦ ?_
    cases w with
    | null => exact failsPlainly_fail fun _ _ ↦ nofun
    | _ => exact ih _ _

end Action

/-- No write fails as if an iteration had stopped. -/
theorem Slot.failsPlainly_write (slot : Slot) (target v : Value) :
    Action.FailsPlainly (slot.write target v) := by
  unfold Slot.write
  cases slot.path.getLast? with
  | none => exact Action.failsPlainly_done v
  | some name =>
    refine Action.failsPlainly_bind (Action.failsPlainly_reach _ _ _ _) fun object ↦
      Action.failsPlainly_bind (fun s e he ↦ ?_) fun _ ↦ Action.failsPlainly_done target
    rw [Store.writeAttribute_eq] at he
    split at he
    · exact Action.failsPlainly_fail (f := .operand _) (fun _ _ hf ↦ by cases hf) s e he
    · cases he

namespace Mapper

theorem unmistakable_error {e : Raised} (h : ¬ e.StopsIteration) : Unmistakable (.error e) := by
  rintro _ ⟨⟩
  exact ⟨rfl, h⟩

theorem unmistakable_ok {v : Value} (h : failure? (.ok v) = none) : Unmistakable (.ok v) := by
  intro e he
  rw [h] at he
  cases he

theorem Unmistakable.failure?_ok {v : Value} (h : Unmistakable (.ok v)) :
    failure? (.ok v) = none := by
  by_contra hsome
  obtain ⟨e, he⟩ := Option.ne_none_iff_exists'.mp hsome
  cases (h e he).1

theorem Unmistakable.not_stopsIteration {e : Raised} (h : Unmistakable (.error e)) :
    ¬ e.StopsIteration := (h e rfl).2

theorem Unmistakable.guarded_eq {o : Outcome} (h : Unmistakable o) : Prog.guarded o = .done o :=
  Prog.guarded_eq fun e he ↦ (h e (he ▸ rfl)).2

end Mapper

namespace Rule

open Mapper

/-- A write takes no waiting, leaves the log alone and gives or raises nothing to be mistaken. -/
theorem run_write_plainly (r : Rule) {target v : Value} (htarget : Unmistakable (.ok target))
    (hv : Unmistakable (.ok v)) (m : Machine) : ∃ m' result,
      m.run (r.write target v) = (m', .settled result) ∧ m'.store.log = m.store.log ∧
        m.store.SameBelow 0 m'.store ∧ m' = { m with store := m'.store } ∧
        Unmistakable result := by
  refine ⟨_, _, rfl, ?_, ?_, rfl, ?_⟩
  · change (r.slot.write target v (r.binder.compiled m.store)).2.log = _
    rw [Slot.log_write, Binder.compiled, Binder.compile, Action.change]
    split_ifs <;> rfl
  · exact (r.binder.sameBelow_compiled 0 m.store).trans
      (r.slot.addsFrom_write target v _ (Nat.zero_le _))
  · change Unmistakable (r.slot.write target v (r.binder.compiled m.store)).1
    cases hw : (r.slot.write target v (r.binder.compiled m.store)).1 with
    | error e => exact unmistakable_error (r.slot.failsPlainly_write target v _ e hw)
    | ok w =>
      rcases Slot.eq_or_eq_of_write hw with rfl | rfl
      · exact htarget
      · exact hv

/-- So does completing a rule in a mapper of either kind; a failure of the compute is passed on. -/
theorem run_complete_plainly (r : Rule) (kind : Kind) {target : Value} {given : Outcome}
    (htarget : Unmistakable (.ok target)) (hgiven : Unmistakable given) (m : Machine) :
    ∃ m' result, m.run (r.complete target kind given) = (m', .settled result) ∧
      m'.store.log = m.store.log ∧ m.store.SameBelow 0 m'.store ∧
      m' = { m with store := m'.store } ∧ Unmistakable result ∧
      ∀ e, given = .error e → result = .error e := by
  cases given with
  | error e =>
    refine ⟨m, .error e, ?_, rfl, .refl 0 m.store, rfl, hgiven, fun e' he ↦ he⟩
    cases kind with
    | synchronous => rfl
    | asynchronous => exact r.run_finish_error target hgiven.not_stopsIteration m
  | ok v =>
    obtain ⟨m', result, hrun, hlog, hbelow, hm', hresult⟩ := r.run_write_plainly htarget hgiven m
    refine ⟨m', result, ?_, hlog, hbelow, hm', hresult, nofun⟩
    cases kind with
    | synchronous => exact hrun
    | asynchronous =>
      change m.run ((r.write target v).bind Prog.guarded) = _
      rw [Machine.run_bind, hrun, Machine.goOn, hresult.guarded_eq, Machine.run_done]

end Rule

/-! ### Stories -/

/-- The moves that a process has made, each with the machine before and after. -/
abbrev Story := List (Machine × Machine)

/-- The record warns of a rule that failed. -/
def Log.Entry.reportsFailure (e : Log.Entry) : Bool :=
  e.level = .warning && e.message == "Mapping rule failed"

/-- The log has grown, and some of what was added warns of rules that failed. -/
def Machine.Warns (m m' : Machine) (ws : List Log.Entry) : Prop :=
  ∃ added, m'.store.log = m.store.log ++ added ∧ added.filter Log.Entry.reportsFailure = ws

namespace Story

/-- The warnings about failed rules that were added to the log in a move. -/
def warningsOf (t : Machine × Machine) : List Log.Entry :=
  (t.2.store.log.drop t.1.store.log.length).filter Log.Entry.reportsFailure

/-- The warnings about failed rules that the moves of a story have added to the log. -/
def warnings (ms : Story) : List Log.Entry := ms.flatMap warningsOf

/-- The moves of one part among the moves of several, each marked with the part that made it. -/
def share (moves : List (ℕ × Machine × Machine)) (i : ℕ) : Story :=
  (moves.filter fun t ↦ t.1 = i).map Prod.snd

theorem share_append_self (moves : List (ℕ × Machine × Machine)) (i : ℕ) (t : Machine × Machine) :
    share (moves ++ [(i, t)]) i = share moves i ++ [t] := by
  simp [share]

theorem share_append_of_ne (moves : List (ℕ × Machine × Machine)) {i j : ℕ} (h : i ≠ j)
    (t : Machine × Machine) : share (moves ++ [(i, t)]) j = share moves j := by
  simp [share, h]

theorem share_append (moves more : List (ℕ × Machine × Machine)) (i : ℕ) :
    share (moves ++ more) i = share moves i ++ share more i := by
  simp [share]

theorem share_cons_self (moves : List (ℕ × Machine × Machine)) (i : ℕ) (t : Machine × Machine) :
    share ((i, t) :: moves) i = t :: share moves i := by
  simp [share]

theorem share_cons_of_ne (moves : List (ℕ × Machine × Machine)) {i j : ℕ} (h : i ≠ j)
    (t : Machine × Machine) : share ((i, t) :: moves) j = share moves j := by
  simp [share, h]

theorem share_eq_nil {moves : List (ℕ × Machine × Machine)} {i : ℕ} (h : ∀ t ∈ moves, t.1 ≠ i) :
    share moves i = [] := by
  rw [share, List.map_eq_nil_iff, List.filter_eq_nil_iff]
  simpa using h

theorem share_ne_nil {moves : List (ℕ × Machine × Machine)} {i : ℕ} (h : i ∈ moves.map Prod.fst) :
    share moves i ≠ [] := by
  obtain ⟨t, ht, rfl⟩ := List.mem_map.mp h
  have hshare : t.2 ∈ share moves t.1 :=
    List.mem_map_of_mem (List.mem_filter.mpr ⟨ht, decide_eq_true rfl⟩)
  exact List.ne_nil_of_mem hshare

theorem flatMap_range_ite {α : Type} {n i : ℕ} (hi : i < n) (l : List α) :
    ((List.range n).flatMap fun j ↦ if i = j then l else []) = l := by
  induction n with
  | zero => omega
  | succ n ih =>
    rw [List.range_succ, List.flatMap_append, List.flatMap_singleton]
    by_cases hin : i = n
    · have hbefore : ((List.range n).flatMap fun j ↦ if i = j then l else []) = [] := by
        refine List.flatMap_eq_nil_iff.mpr fun j hj ↦ if_neg ?_
        have := List.mem_range.mp hj
        omega
      rw [hbefore, if_pos hin, List.nil_append]
    · rw [ih (by omega), if_neg hin, List.append_nil]

/-- The moves of several parts are those of each. -/
theorem perm_flatMap_share {α : Type} (f : Machine × Machine → List α) {n : ℕ}
    {moves : List (ℕ × Machine × Machine)} (h : ∀ t ∈ moves, t.1 < n) :
    ((moves.map Prod.snd).flatMap f).Perm
      ((List.range n).flatMap fun i ↦ (share moves i).flatMap f) := by
  induction moves with
  | nil => simp [share]
  | cons t rest ih =>
    obtain ⟨ht, hrest⟩ := List.forall_mem_cons.mp h
    have hsplit : ∀ i, (share (t :: rest) i).flatMap f =
        (if t.1 = i then f t.2 else []) ++ (share rest i).flatMap f := by
      intro i
      by_cases hi : t.1 = i <;> simp [share, hi]
    simp only [hsplit, List.map_cons, List.flatMap_cons]
    refine (List.Perm.append ?_ (ih hrest)).trans (List.flatMap_append_perm _ _ _)
    rw [flatMap_range_ite ht]

end Story

namespace Machine.Warns

variable {m m' m'' : Machine} {ws ws' : List Log.Entry}

theorem of_log_eq (h : m'.store.log = m.store.log) : m.Warns m' [] := ⟨[], by simpa using h, rfl⟩

theorem trans (h : m.Warns m' ws) (h' : m'.Warns m'' ws') : m.Warns m'' (ws ++ ws') := by
  obtain ⟨added, hlog, rfl⟩ := h
  obtain ⟨more, hlog', rfl⟩ := h'
  exact ⟨added ++ more, by rw [hlog', hlog, List.append_assoc], List.filter_append ..⟩

theorem log_grows (h : m.Warns m' ws) : m.store.log <+: m'.store.log := by
  obtain ⟨added, hlog, _⟩ := h
  exact ⟨added, hlog.symm⟩

theorem warningsOf_eq (h : m.Warns m' ws) : Story.warningsOf (m, m') = ws := by
  obtain ⟨added, hlog, rfl⟩ := h
  rw [Story.warningsOf, hlog, List.drop_left]

theorem of_log_grows (h : m.store.log <+: m'.store.log) :
    m.Warns m' (Story.warningsOf (m, m')) := by
  obtain ⟨added, hlog⟩ := h
  exact ⟨added, hlog.symm, by rw [Story.warningsOf, ← hlog, List.drop_left]⟩

end Machine.Warns

/-! ### Ways to move -/

variable {step : Machine → Proc → Machine → Proc → Prop}

/-- A way to move. What has ended stays as it is, and a process that is followed by a program moves
as it does by itself, where the program takes over when it ends. -/
structure Machine.Steps (step : Machine → Proc → Machine → Proc → Prop) : Prop where
  ne_settled {m m' : Machine} {p q : Proc} (h : step m p m' q) (o : Outcome) : p ≠ .settled o
  of_bind {m m' : Machine} {p q : Proc} {f : Outcome → Prog} (h : step m (p.bind f) m' q) :
    (∃ o, p = .settled o ∧ m.run (f o) = (m', q)) ∨
      ∃ m₁ p₁, step m p m₁ p₁ ∧ Machine.goOn f (m₁, p₁) = (m', q)

/-- The process of a program has made the moves of a story, each in a certain way, and is left as it
is. What happened to the machine between the moves is left open. -/
inductive Story.Follows (step : Machine → Proc → Machine → Proc → Prop) (p : Prog) :
    Story → Proc → Prop
  | fresh : Follows step p [] (.fresh p)
  | move {ms : Story} {m m' : Machine} {q r : Proc} (h : Follows step p ms q)
      (hmove : step m q m' r) : Follows step p (ms ++ [(m, m')]) r

/-- The moves of a program that is followed by another, which ends at once: they are moves of the
first, in the last of which the second follows if the first has ended. -/
theorem Story.Follows.of_bind (hstep : Machine.Steps step) {p : Prog} {f : Outcome → Prog}
    {ms : Story} {q : Proc} (h : Follows step (p.bind f) ms q)
    (hf : ∀ m o, ∃ m' result, Machine.run (f o) m = (m', .settled result)) :
    (∃ r, Follows step p ms r ∧ (∀ o, r ≠ .settled o) ∧ q = r.bind f) ∨
      ∃ before m m₁ m' o result, ms = before ++ [(m, m')] ∧
        Follows step p (before ++ [(m, m₁)]) (.settled o) ∧
        m₁.run (f o) = (m', .settled result) ∧ q = .settled result := by
  induction h with
  | fresh => exact Or.inl ⟨.fresh p, .fresh, nofun, rfl⟩
  | @move ms m m' q r _ hmove ih =>
    rcases ih with ⟨r₀, hfollows, hopen, rfl⟩ | ⟨_, _, _, _, _, _, _, _, _, rfl⟩
    · rcases hstep.of_bind hmove with ⟨o, rfl, _⟩ | ⟨m₁, r₁, hfirst, hnext⟩
      · exact absurd rfl (hopen o)
      · have hfollows' := hfollows.move hfirst
        by_cases hended : ∃ o, r₁ = .settled o
        · obtain ⟨o, rfl⟩ := hended
          obtain ⟨m₂, result, hrun⟩ := hf m₁ o
          cases hrun.symm.trans hnext
          exact Or.inr ⟨ms, m, m₁, _, o, result, rfl, hfollows', hrun, rfl⟩
        · have hopen₁ : ∀ o, r₁ ≠ .settled o := fun o ho ↦ hended ⟨o, ho⟩
          rw [Machine.goOn_of_ne hopen₁] at hnext
          cases hnext
          exact Or.inl ⟨r₁, hfollows', hopen₁, rfl⟩
    · exact absurd rfl (hstep.ne_settled hmove _)

namespace Footing

variable {c : Footing} {p : Prog} {ms : Story}

/-- A move that begins where the facts hold. -/
def Moves (c : Footing) (m : Machine) (p : Proc) (m' : Machine) (q : Proc) : Prop :=
  c.holds m ∧ Machine.Move m p m' q

theorem steps_moves (c : Footing) : Machine.Steps c.Moves where
  ne_settled h := h.2.ne_settled
  of_bind := by
    rintro m m' p q f ⟨hm, hmove⟩
    rcases hmove.of_bind with hended | ⟨m₁, p₁, hfirst, hnext⟩
    · exact Or.inl hended
    · exact Or.inr ⟨m₁, p₁, ⟨hm, hfirst⟩, hnext⟩

/-- The process of a program has moved, whenever it could and in any order of its parts. -/
abbrev Lived (c : Footing) : Prog → Story → Proc → Prop := Story.Follows c.Moves

theorem Lived.move {m m' : Machine} {q r : Proc} (h : c.Lived p ms q) (hm : c.holds m)
    (hmove : Machine.Move m q m' r) : c.Lived p (ms ++ [(m, m')]) r :=
  Story.Follows.move h ⟨hm, hmove⟩

end Footing

end Recast
