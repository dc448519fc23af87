import Recast.Proofs.Gathering

/-!
Coming to an end. A process that is left to itself moves, or time passes. A program provides a
result when it yields such results and its process, left to itself, can always come to an end
(`Surroundings.Provides`). When the computes of a mapper can, so can the mapper: its rules can be
left to themselves one after the other (`Plan.Underway.exists_course`).
-/

set_option autoImplicit false

namespace Recast

/-- The machine at another time. -/
def Machine.later (m : Machine) (now : ℕ) : Machine :=
  { m with store := { m.store with now := now } }

theorem Machine.Spares.later (m : Machine) (kept : Set ℕ) (now : ℕ) : m.Spares kept (m.later now) :=
  ⟨rfl, le_rfl, fun _ _ _ ↦ rfl⟩

namespace Surroundings

variable {c : Surroundings} {result : Machine → Outcome → Prop}
  {good : Proc → Set ℕ → Machine → Prop}

/-- A process that has not ended moves, or time passes. -/
inductive Step (c : Surroundings) : Machine × Proc → Machine × Proc → Prop
  | move {m m' : Machine} {p q : Proc} (h : Machine.Move m p m' q) : Step c (m, p) (m', q)
  | wait {m : Machine} {p : Proc} {now : ℕ} (hopen : ∀ o, p ≠ .settled o)
      (h : c.holds (m.later now)) : Step c (m, p) (m.later now, p)

/-- A process that is left to itself. -/
def Course (c : Surroundings) : Machine × Proc → Machine × Proc → Prop :=
  Relation.ReflTransGen c.Step

theorem Step.ne_settled {s t : Machine × Proc} (h : c.Step s t) (o : Outcome) :
    s.2 ≠ .settled o := by
  cases h with
  | move h => exact h.ne_settled o
  | wait hopen => exact hopen o

/-- What has ended stays. -/
theorem Course.eq_of_settled {s t : Machine × Proc} (h : c.Course s t) {o : Outcome}
    (hs : s.2 = .settled o) : t = s := by
  rcases Relation.ReflTransGen.cases_head h with rfl | ⟨_, hstep, _⟩
  · rfl
  · exact absurd hs (hstep.ne_settled o)

/-- A process that ends is followed by the program that waits for it. -/
theorem Course.bind {s : Machine × Proc} {m : Machine} {o : Outcome}
    (h : c.Course s (m, .settled o)) (f : Outcome → Prog) :
    c.Course (s.1, s.2.bind f) (m.run (f o)) := by
  induction h using Relation.ReflTransGen.head_induction_on with
  | refl => exact .single (.move (.resume rfl))
  | @head s t hstep hrest ih =>
    cases hstep with
    | wait hopen hholds => exact .head (.wait (fun o ↦ Proc.bind_ne_settled _ f o) hholds) ih
    | @move m m' p q hmove =>
      by_cases hended : ∃ o', q = .settled o'
      · obtain ⟨o', rfl⟩ := hended
        cases Course.eq_of_settled hrest rfl
        exact .single (.move (hmove.bind rfl))
      · exact .head (.move (hmove.bind (Machine.goOn_of_ne fun o ho ↦ hended ⟨o, ho⟩))) ih

/-- A part that is left to itself takes along what waits for it. -/
theorem Course.part {s t : Machine × Proc} (h : c.Course s t) (cancelled : Bool)
    (before after : List Proc) (k : Option (List Outcome) → Prog) :
    c.Course (s.1, .joining cancelled (before ++ s.2 :: after) k)
      (t.1, .joining cancelled (before ++ t.2 :: after) k) := by
  induction h with
  | refl => exact .refl
  | tail _ hstep ih =>
    cases hstep with
    | move hmove => exact ih.tail (.move (.part hmove))
    | wait _ hholds => exact ih.tail (.wait nofun hholds)

/-- What a process does that is left to itself is a way to go on. -/
theorem Run.course {own own' : Set ℕ} {m m' : Machine} {p q : Proc} (h : c.Run own m p own' m' q)
    {t : Machine × Proc} (hcourse : c.Course (m', q) t) : ∃ own'', c.Run own m p own'' t.1 t.2 := by
  induction hcourse with
  | refl => exact ⟨own', h⟩
  | tail _ hstep ih =>
    obtain ⟨own'', hrun⟩ := ih
    cases hstep with
    | move hmove => exact ⟨_, hrun.move hmove⟩
    | wait _ hholds => exact ⟨_, hrun.other hholds (.later _ _ _)⟩

/-- In every good state a process that is left to itself can come to an end. -/
def Lively (c : Surroundings) (good : Proc → Set ℕ → Machine → Prop) : Prop :=
  ∀ p own m, good p own m → c.holds m → ∃ m' o, c.Course (m, p) (m', .settled o)

/-- The program yields a result, and left to itself it can come to an end. -/
def Provides (c : Surroundings) (result : Machine → Outcome → Prop) (p : Prog) : Prop :=
  ∃ good, c.Discipline result good ∧ c.Lively good ∧ ∀ m, c.holds m → good (.fresh p) ∅ m

/-- Wherever the program is run, it can come to an end. -/
theorem Provides.exists_run {p : Prog} (h : c.Provides result p) {m : Machine} (hm : c.holds m) :
    ∃ own m' o, c.Run ∅ m (.fresh p) own m' (.settled o) := by
  obtain ⟨good, _, hlively, hstart⟩ := h
  obtain ⟨m', o, hcourse⟩ := hlively _ _ _ (hstart m hm) hm
  obtain ⟨own, hrun⟩ := Run.course .refl hcourse
  exact ⟨own, m', o, hrun⟩

/-- However the program was run, it has ended in a result. -/
theorem Provides.of_run {p : Prog} (h : c.Provides result p) {m m' : Machine} (hm : c.holds m)
    {own : Set ℕ} {o : Outcome} (hrun : c.Run ∅ m (.fresh p) own m' (.settled o)) :
    result m' o := by
  obtain ⟨good, hgood, _, hstart⟩ := h
  obtain ⟨hended, hm'⟩ := hgood.run (hstart m hm) hm hrun
  exact hgood.ended hended hm'

/-- A disciplined process that is left to itself stays in good states. -/
theorem Discipline.course (hgood : c.Discipline result good) {s t : Machine × Proc} {own : Set ℕ}
    (h : good s.2 own s.1) (hs : c.holds s.1) (hcourse : c.Course s t) :
    c.holds t.1 ∧ ∃ own', good t.2 own' t.1 := by
  induction hcourse with
  | refl => exact ⟨hs, own, h⟩
  | tail _ hstep ih =>
    obtain ⟨hholds, own', hgoodHere⟩ := ih
    cases hstep with
    | move hmove =>
      obtain ⟨hholds', _, hnext⟩ := hgood.move hgoodHere hholds hmove
      exact ⟨hholds', _, hnext⟩
    | wait _ hholds' =>
      exact ⟨hholds', own', hgood.undisturbed hgoodHere hholds hholds' (.later _ _ _)⟩

/-! ### Programs that provide -/

theorem EndsIn.lively {p : Prog} (h : c.EndsIn result p) : c.Lively (c.AtOnce result p) := by
  rintro q own m (⟨rfl, _⟩ | ⟨o, rfl, _⟩) hm
  · obtain ⟨m', o, hrun, _⟩ := h m hm
    exact ⟨m', o, .single (.move (.start hrun))⟩
  · exact ⟨m, o, .refl⟩

theorem EndsIn.provides {p : Prog} (h : c.EndsIn result p) : c.Provides result p :=
  ⟨_, h.discipline, h.lively, fun _ _ ↦ Or.inl ⟨rfl, rfl⟩⟩

/-- Sleeping comes to an end where time may pass. -/
theorem Provides.sleep {ms : ℕ} {k : Outcome → Prog} (h : c.Provides result (k (.ok .null)))
    (hclock : ∀ m now, c.holds m → c.holds (m.later now)) : c.Provides result (.sleep ms k) := by
  obtain ⟨good, hgood, hlively, hstart⟩ := h
  have hwoken : ∀ m time, c.holds m → ∃ m' o, c.Course (m, .sleeping time k) (m', .settled o) := by
    intro m time hm
    have hlater := hclock m time hm
    obtain ⟨hholds, _, hnext⟩ := hgood.move (hstart _ hlater) hlater (.start rfl)
    obtain ⟨m', o, hcourse⟩ := hlively _ _ _ hnext hholds
    exact ⟨m', o, .head (.wait nofun hlater) (.head (.move (.wake le_rfl rfl)) hcourse)⟩
  refine ⟨_, hgood.asleep hstart, ?_, fun _ _ ↦ Or.inl ⟨Or.inl rfl, rfl⟩⟩
  rintro q own m (⟨rfl | ⟨time, rfl⟩, rfl⟩ | hq) hm
  · obtain ⟨m', o, hcourse⟩ := hwoken m (m.store.now + ms) hm
    exact ⟨m', o, .head (.move (.start rfl)) hcourse⟩
  · exact hwoken m time hm
  · exact hlively q own m hq hm

/-- A coroutine comes to an end when its body does. -/
theorem Provides.asCoroutine {p : Prog} (h : c.Provides result p)
    (hresult : ∀ m e, result m (.error e) → ¬ e.StopsIteration) :
    c.Provides result p.asCoroutine := by
  obtain ⟨good, hgood, hlively, hstart⟩ := h
  refine ⟨_, hgood.guarded hresult, ?_, fun m hm ↦ Or.inl ⟨.fresh p, rfl, hstart m hm⟩⟩
  rintro q own m (⟨r, rfl, hr⟩ | ⟨o, rfl, _⟩) hm
  · obtain ⟨m', o, hcourse⟩ := hlively r own m hr hm
    obtain ⟨hm', own', hended⟩ := hgood.course (s := (m, r)) hr hm hcourse
    have hbind := hcourse.bind Prog.guarded
    rw [Prog.guarded_eq fun e he ↦ hresult m' e (he ▸ hgood.ended hended hm'),
      Machine.run_done] at hbind
    exact ⟨m', o, hbind⟩
  · exact ⟨m, o, .refl⟩

end Surroundings

/-! ### Rules that are left to themselves -/

namespace Plan

variable {c : Surroundings} {plan : Plan} {good : Rule → Proc → Set ℕ → Machine → Prop}

/-- A rule that is left to itself comes to an end when its compute does. -/
theorem Stage.exists_course {r : Rule} (hlively : c.Lively (good r)) {own : Set ℕ} {m : Machine}
    {p : Proc} (h : Stage plan good r own m p) (hm : c.holds m) :
    ∃ m' o, c.Course (m, p) (m', .settled o) := by
  cases h with
  | @computing q h =>
    obtain ⟨m₁, o, hcourse⟩ := hlively q own m h hm
    obtain ⟨m', o', hrun⟩ := r.exists_run_finish plan.target o m₁
    exact ⟨m', o', hrun ▸ hcourse.bind (r.finish plan.target)⟩
  | failed | whole | written => exact ⟨m, _, .refl⟩

namespace Underway

variable {own : Set ℕ} {owns : ℕ → Set ℕ} {m : Machine}

/-- While one rule is left to itself, all are under way. -/
theorem course {before after : List Proc} {s t : Machine × Proc}
    (h : Underway c plan good own owns s.1 (before ++ s.2 :: after)) (hplan : plan.IsSound c.base)
    (hgood : ∀ r ∈ plan.rules, c.Discipline (plan.promise r).Kept (good r)) (hs : c.holds s.1)
    (hcourse : c.Course s t) :
    c.holds t.1 ∧ ∃ own' owns', Underway c plan good own' owns' t.1 (before ++ t.2 :: after) := by
  induction hcourse with
  | refl => exact ⟨hs, own, owns, h⟩
  | tail _ hstep ih =>
    obtain ⟨hholds, own', owns', hunder⟩ := ih
    cases hstep with
    | move hmove =>
      obtain ⟨hholds', _, owns'', hnext⟩ := hunder.move hplan hgood hholds hmove
      exact ⟨hholds', _, owns'', hnext⟩
    | wait _ hholds' =>
      exact ⟨hholds', own', owns', hunder.undisturbed hplan hgood hholds hholds' (.later _ _ _)⟩

/-- The rules can be left to themselves one after the other, until all have ended. -/
theorem exists_course {ended : List Outcome} {parts : List Proc}
    (h : Underway c plan good own owns m (ended.map .settled ++ parts))
    (hplan : plan.IsSound c.base)
    (hgood : ∀ r ∈ plan.rules, c.Discipline (plan.promise r).Kept (good r))
    (hlively : ∀ r ∈ plan.rules, c.Lively (good r)) (hm : c.holds m)
    (k : Option (List Outcome) → Prog) :
    ∃ m', ∃ os : List Outcome, c.Course (m, .joining false (ended.map .settled ++ parts) k)
      (m', .joining false (os.map .settled) k) := by
  induction parts generalizing ended own owns m with
  | nil => exact ⟨m, ended, by rw [List.append_nil]; exact .refl⟩
  | cons p parts ih =>
    have hlt : ended.length < plan.rules.length := by
      rw [← h.length_eq, List.length_append, List.length_map, List.length_cons]
      omega
    have hr := List.getElem_mem hlt
    have hstage := h.stage ended.length _ p (List.getElem?_eq_getElem hlt) (by simp)
    obtain ⟨m₁, o, hcourse⟩ := hstage.exists_course (hlively _ hr) hm
    obtain ⟨hm₁, own', owns', hunder⟩ := course (s := (m, p)) h hplan hgood hm hcourse
    have hnext : Underway c plan good own' owns' m₁ ((ended ++ [o]).map .settled ++ parts) := by
      simpa using hunder
    obtain ⟨m', os, hrest⟩ := ih hnext hm₁
    rw [List.map_append, List.append_assoc] at hrest
    exact ⟨m', os, (hcourse.part false _ parts k).trans hrest⟩

end Underway

/-- A mapper comes to an end when the computes of its rules do. -/
theorem lively_gathering (hplan : plan.IsSound c.base)
    (hgood : ∀ r ∈ plan.rules, c.Discipline (plan.promise r).Kept (good r))
    (hlively : ∀ r ∈ plan.rules, c.Lively (good r)) {mapper : Mapper} :
    c.Lively (Gathering c plan good mapper) := by
  rintro p own m ⟨owns, parts, hunder, rfl | ⟨os, _, rfl⟩⟩ hm
  · have hbegun : Underway c plan good own owns m (([] : List Outcome).map .settled ++ parts) :=
      hunder
    obtain ⟨m', os, hcourse⟩ :=
      hbegun.exists_course hplan hgood hlively hm (mapper.whenAll plan.target)
    obtain ⟨log, hend, _⟩ := mapper.run_conclude plan.target os m'
    exact ⟨_, _, hcourse.tail (.move (.join (Proc.outcomes?_eq_some_iff.mpr rfl) hend))⟩
  · exact ⟨m, _, .refl⟩

end Plan

end Recast
