import Recast.Proofs.Answer

/-!
Coming to an end among others that may be cancelled. A process that is left to itself moves, or work
goes on elsewhere, such as that of the task that runs an awaitable. A program provides a result when
its conduct is good and its process, left to itself, can always come to an end unless it is
cancelled (`Commons.Provides`). When the computes of a mapper can, so can its calls
(`Builder.Consistent.provides_answers`).
-/

set_option autoImplicit false

namespace Recast

namespace Commons

variable {c : Commons} {result : Machine → Outcome → Prop}
  {good : Bool → Proc → Set ℕ → Machine → Prop} {w : OneShot} {m m' : Machine}

/-! ### Processes that are left to themselves -/

/-- A process that has not ended moves, or work goes on elsewhere that changes no record. -/
inductive Step (c : Commons) : Machine × Proc → Machine × Proc → Prop
  | move {m m' : Machine} {p q : Proc} (h : Machine.Move m p m' q) : Step c (m, p) (m', q)
  | wait {m m' : Machine} {p : Proc} (hopen : ∀ o, p ≠ .settled o) (h : c.Work Set.univ m m') :
    Step c (m, p) (m', p)

/-- A process that is left to itself. -/
def Course (c : Commons) : Machine × Proc → Machine × Proc → Prop := Relation.ReflTransGen c.Step

theorem Step.ne_settled {s t : Machine × Proc} (h : c.Step s t) (o : Outcome) :
    s.2 ≠ .settled o := by
  cases h with
  | move h => exact h.ne_settled o
  | wait hopen => exact hopen o

/-- What has ended stays. -/
theorem Course.eq_of_settled {s t : Machine × Proc} (h : c.Course s t) {o : Outcome}
    (hs : s.2 = .settled o) : t = s := by
  rcases Relation.ReflTransGen.cases_head h with rfl | ⟨_, hstep, _⟩
  · rfl
  · exact absurd hs (hstep.ne_settled o)

/-- A process that ends is followed by the program that waits for it. -/
theorem Course.bind {s : Machine × Proc} {o : Outcome} (h : c.Course s (m, .settled o))
    (f : Outcome → Prog) : c.Course (s.1, s.2.bind f) (m.run (f o)) := by
  induction h using Relation.ReflTransGen.head_induction_on with
  | refl => exact .single (.move (.resume rfl))
  | @head s t hstep hrest ih =>
    cases hstep with
    | wait hopen hwork => exact .head (.wait (fun o ↦ Proc.bind_ne_settled _ f o) hwork) ih
    | @move m m' p q hmove =>
      by_cases hended : ∃ o', q = .settled o'
      · obtain ⟨o', rfl⟩ := hended
        cases Course.eq_of_settled hrest rfl
        exact .single (.move (hmove.bind rfl))
      · exact .head (.move (hmove.bind (Machine.goOn_of_ne fun o ho ↦ hended ⟨o, ho⟩))) ih

/-- A part that is left to itself takes along what waits for it. -/
theorem Course.part {s t : Machine × Proc} (h : c.Course s t) (cancelled : Bool)
    (before after : List Proc) (k : Option (List Outcome) → Prog) :
    c.Course (s.1, .joining cancelled (before ++ s.2 :: after) k)
      (t.1, .joining cancelled (before ++ t.2 :: after) k) := by
  induction h with
  | refl => exact .refl
  | tail _ hstep ih =>
    cases hstep with
    | move hmove => exact ih.tail (.move (.part hmove))
    | wait _ hwork => exact ih.tail (.wait nofun hwork)

/-- Work elsewhere while a process waits. -/
theorem course_of_work {p : Proc} (hopen : ∀ o, p ≠ .settled o)
    (h : Relation.ReflTransGen (c.Work Set.univ) m m') : c.Course (m, p) (m', p) := by
  induction h with
  | refl => exact .refl
  | tail _ hwork ih => exact ih.tail (.wait hopen hwork)

/-- In every good state a process that is left to itself can come to an end, unless it was
cancelled. -/
def Lively (c : Commons) (good : Bool → Proc → Set ℕ → Machine → Prop) : Prop :=
  ∀ p own m, good false p own m → c.Holds m → ∃ m' o, c.Course (m, p) (m', .settled o)

/-- The conduct of the program is good, and left to itself it can come to an end. -/
def Provides (c : Commons) (result : Machine → Outcome → Prop) (p : Prog) : Prop :=
  ∃ good, c.Conduct result good ∧ c.Lively good ∧ ∀ m, c.Holds m → good false (.fresh p) ∅ m

theorem Provides.conducts {p : Prog} (h : c.Provides result p) : c.Conducts result p := by
  obtain ⟨good, hgood, _, hstart⟩ := h
  exact ⟨good, hgood, hstart⟩

theorem Provides.mono {result' : Machine → Outcome → Prop} {p : Prog} (h : c.Provides result p)
    (hresult : ∀ m o, c.Holds m → result m o → result' m o) : c.Provides result' p := by
  obtain ⟨good, hgood, hlively, hstart⟩ := h
  exact ⟨good, { hgood with ended := fun h hm ↦ hresult _ _ hm (hgood.ended h hm) }, hlively,
    hstart⟩

theorem Provides.left {promise : Promise} {p : Prog} (h : c.Provides promise.Kept p) :
    c.Provides promise.Left p := h.mono fun _ _ _ ↦ Promise.Kept.left

/-! ### Programs that provide -/

theorem EndsIn.lively {p : Prog} (h : c.EndsIn result p) : c.Lively (c.AtOnce result p) := by
  rintro q own m (⟨rfl, _⟩ | ⟨o, rfl, _⟩) hm
  · obtain ⟨m', o, hrun, _⟩ := h m hm
    exact ⟨m', o, .single (.move (.start hrun))⟩
  · exact ⟨m, o, .refl⟩

theorem EndsIn.provides {p : Prog} (h : c.EndsIn result p) : c.Provides result p :=
  ⟨_, h.conduct, h.lively, fun _ _ ↦ Or.inl ⟨rfl, rfl⟩⟩

/-- Time passes. -/
theorem Holds.work_later (hm : c.Holds m) {now : ℕ} (h : c.ground.holds (m.later now))
    (kept : Set ℕ) : c.Work kept m (m.later now) where
  ground := h
  regular := ⟨hm.regular.sizes, hm.regular.notes⟩
  awaitables _ _ := Or.inl ⟨⟨fun h ↦ ⟨h.sizes, h.notes⟩, rfl, fun _ _ h ↦ h, fun _ _ _ _ h ↦ h,
    fun _ _ _ _ h ↦ h⟩, fun _ h ↦ h⟩
  own := hm.own
  records := .later m kept now

/-- Sleeping comes to an end where time may pass. -/
theorem Provides.sleep {ms : ℕ} {k : Outcome → Prog} (h : c.Provides result (k (.ok .null)))
    (hstop : c.Conducts (fun _ _ ↦ True) (k (.error .cancelled)))
    (hclock : ∀ m now, c.ground.holds m → c.ground.holds (m.later now)) :
    c.Provides result (.sleep ms k) := by
  obtain ⟨woken, hwoken, hlively, hwokenStart⟩ := h
  obtain ⟨stopped, hstopped, hstoppedStart⟩ := hstop
  have hwakes : ∀ m time, c.Holds m → ∃ m' o, c.Course (m, .sleeping time k) (m', .settled o) := by
    intro m time hm
    have hwork := hm.work_later (hclock m time hm.ground) Set.univ
    obtain ⟨hlater, _⟩ := hm.work hwork
    obtain ⟨hpermits, hnext⟩ := hwoken.move (hwokenStart _ hlater) hlater (.start rfl)
    obtain ⟨m', o, hcourse⟩ := hlively _ _ _ hnext hpermits.holds
    exact ⟨m', o, .head (.wait nofun hwork) (.head (.move (.wake le_rfl rfl)) hcourse)⟩
  refine ⟨_, hwoken.asleep hwokenStart hstopped hstoppedStart, ?_,
    fun _ _ ↦ Or.inl ⟨Or.inl rfl, rfl⟩⟩
  rintro q own m (⟨rfl | ⟨time, rfl⟩ | ⟨hc, _⟩, _⟩ | hq | ⟨hc, _⟩) hm
  · obtain ⟨m', o, hcourse⟩ := hwakes m (m.store.now + ms) hm
    exact ⟨m', o, .head (.move (.start rfl)) hcourse⟩
  · exact hwakes m time hm
  · cases hc
  · exact hlively q own m hq hm
  · cases hc

theorem lively_wrapped (hlively : c.Lively good) : c.Lively (Wrapped good) := by
  rintro q own m (⟨r, rfl, hr⟩ | ⟨hc, _⟩ | ⟨o, rfl, _⟩) hm
  · obtain ⟨m₁, o, hcourse⟩ := hlively r own m hr hm
    obtain ⟨id, o', hguarded, _⟩ := m₁.run_guarded o
    have hbind := hcourse.bind Prog.guarded
    rw [hguarded] at hbind
    exact ⟨_, o', hbind⟩
  · cases hc
  · exact ⟨m, o, .refl⟩

/-- A coroutine comes to an end when its body does. -/
theorem Provides.asCoroutine {p : Prog} (h : c.Provides result p) :
    c.Provides (fun m o' ↦ ∃ o, result m o ∧ LetOut o o') p.asCoroutine := by
  obtain ⟨good, hgood, hlively, hstart⟩ := h
  exact ⟨_, hgood.wrapped, lively_wrapped hlively,
    fun m hm ↦ Or.inl ⟨.fresh p, rfl, hstart m hm⟩⟩

/-- Wherever the awaitable has been handed over, work elsewhere can fill its future. -/
def Fulfils (c : Commons) (w : OneShot) : Prop :=
  ∀ m, c.Holds m → ∀ i ∈ w.places m,
    ∃ m' o, Relation.ReflTransGen (c.Work Set.univ) m m' ∧ m'.future? i = some o

/-- Waiting for an awaitable comes to an end where the awaitable does. -/
theorem provides_shared (hw : w ∈ c.awaitables) (hfulfils : c.Fulfils w) {r : Rule}
    (hcell : r.binder.cell = w.cell) (hr : r.compute = .literal w.value) (source : Value) :
    c.Provides (fun _ o ↦ c.ends w o) (r.evaluate source) := by
  have hwaiting : ∀ m i, c.Holds m → i ∈ w.places m →
      ∃ m' o, c.Course (m, .awaiting i .done) (m', .settled o) := by
    intro m i hm hi
    obtain ⟨m', o, hwork, ho⟩ := hfulfils m hm i hi
    have hopen : ∀ o, Proc.awaiting i .done ≠ .settled o := nofun
    exact ⟨m', o, (course_of_work hopen hwork).tail (.move (.receive ho rfl))⟩
  refine ⟨_, conduct_sharing hw hcell hr source, ?_, fun _ _ ↦ Or.inl rfl⟩
  rintro q own m (rfl | ⟨i, hi, rfl⟩ | ⟨hc, _⟩ | ⟨o, rfl, _⟩) hm
  · rcases hrun : m.run (r.evaluate source) with ⟨m₁, q⟩
    obtain ⟨hpermits, i, hi, rfl | ⟨o, rfl, _⟩⟩ := hm.waits_of_start hw hcell hr hrun own
    · obtain ⟨m', o, hcourse⟩ := hwaiting m₁ i hpermits.holds hi
      exact ⟨m', o, .head (.move (.start hrun)) hcourse⟩
    · exact ⟨m₁, o, .single (.move (.start hrun))⟩
  · exact hwaiting m i hm hi
  · cases hc
  · exact ⟨m, o, .refl⟩

end Commons

/-! ### Mappers that are left to themselves -/

namespace Plan

variable {c : Commons} {plan : Plan} {good : Rule → Bool → Proc → Set ℕ → Machine → Prop}

/-- A rule that is left to itself comes to an end when its compute does. -/
theorem Part.exists_course {r : Rule} (hlively : c.Lively (good r)) {own : Set ℕ} {m : Machine}
    {p : Proc} (h : Part plan good false r own m p) (hm : c.Holds m) :
    ∃ m' o, c.Course (m, p) (m', .settled o) := by
  cases h with
  | @computing q h =>
    obtain ⟨m₁, o, hcourse⟩ := hlively q own m h hm
    obtain ⟨m', o', hrun⟩ := r.exists_run_finish plan.target o m₁
    exact ⟨m', o', hrun ▸ hcourse.bind (r.finish plan.target)⟩
  | stopped hc => cases hc
  | ended => exact ⟨m, _, .refl⟩

namespace Afloat

variable {own : Set ℕ} {owns : ℕ → Set ℕ} {m : Machine}

/-- While one rule is left to itself, all stay afloat. -/
theorem course {before after : List Proc} {s t : Machine × Proc}
    (h : Afloat c plan good false own owns s.1 (before ++ s.2 :: after))
    (hplan : plan.IsSound c.ground.base)
    (hgood : ∀ r ∈ plan.rules, c.Conduct (plan.promise r).Left (good r)) (hs : c.Holds s.1)
    (hcourse : c.Course s t) :
    c.Holds t.1 ∧ ∃ own' owns', Afloat c plan good false own' owns' t.1
      (before ++ t.2 :: after) := by
  induction hcourse with
  | refl => exact ⟨hs, own, owns, h⟩
  | tail _ hstep ih =>
    obtain ⟨hholds, own', owns', hafloat⟩ := ih
    cases hstep with
    | move hmove =>
      obtain ⟨hpermits, owns'', hnext⟩ := hafloat.move hplan hgood hholds hmove
      exact ⟨hpermits.holds, _, owns'', hnext⟩
    | wait _ hwork =>
      obtain ⟨hholds', hkeeps⟩ := hholds.work hwork
      exact ⟨hholds', own', owns', hafloat.undisturbed hplan hgood hholds hholds' hkeeps
        (hwork.records.mono (Set.subset_univ _))⟩

/-- The rules can be left to themselves one after the other, until all have ended. -/
theorem exists_course {ended : List Outcome} {parts : List Proc}
    (h : Afloat c plan good false own owns m (ended.map .settled ++ parts))
    (hplan : plan.IsSound c.ground.base)
    (hgood : ∀ r ∈ plan.rules, c.Conduct (plan.promise r).Left (good r))
    (hlively : ∀ r ∈ plan.rules, c.Lively (good r)) (hm : c.Holds m)
    (k : Option (List Outcome) → Prog) :
    ∃ m', ∃ os : List Outcome, c.Course (m, .joining false (ended.map .settled ++ parts) k)
      (m', .joining false (os.map .settled) k) := by
  induction parts generalizing ended own owns m with
  | nil => exact ⟨m, ended, by rw [List.append_nil]; exact .refl⟩
  | cons p parts ih =>
    have hlt : ended.length < plan.rules.length := by
      rw [← h.length_eq, List.length_append, List.length_map, List.length_cons]
      omega
    have hr := List.getElem_mem hlt
    have hpart := h.part ended.length _ p (List.getElem?_eq_getElem hlt) (by simp)
    obtain ⟨m₁, o, hcourse⟩ := hpart.exists_course (hlively _ hr) hm
    obtain ⟨hm₁, own', owns', hafloat⟩ := course (s := (m, p)) h hplan hgood hm hcourse
    have hnext : Afloat c plan good false own' owns' m₁ ((ended ++ [o]).map .settled ++ parts) := by
      simpa using hafloat
    obtain ⟨m', os, hrest⟩ := ih hnext hm₁
    rw [List.map_append, List.append_assoc] at hrest
    exact ⟨m', os, (hcourse.part false _ parts k).trans hrest⟩

end Afloat

/-- A mapper comes to an end when the computes of its rules do. -/
theorem lively_gathered (hplan : plan.IsSound c.ground.base)
    (hgood : ∀ r ∈ plan.rules, c.Conduct (plan.promise r).Left (good r))
    (hlively : ∀ r ∈ plan.rules, c.Lively (good r)) {mapper : Mapper} :
    c.Lively (Gathered c plan good mapper) := by
  rintro p own m (⟨owns, parts, noted, hafloat, hnoted, rfl⟩ | ⟨o, rfl, _⟩) hm
  · obtain rfl := hnoted rfl
    have hbegun : Afloat c plan good false own owns m (([] : List Outcome).map .settled ++ parts) :=
      hafloat
    obtain ⟨m', os, hcourse⟩ :=
      hbegun.exists_course hplan hgood hlively hm (mapper.whenAll plan.target)
    obtain ⟨log, hend, _⟩ := mapper.run_conclude plan.target os m'
    exact ⟨_, _, hcourse.tail (.move (.join (Proc.outcomes?_eq_some_iff.mpr rfl) hend))⟩
  · exact ⟨m, o, .refl⟩

end Plan

namespace Builder.Consistent

variable {c : Commons} {b : Builder} {pattern : Pattern} {expect : Rule → Expectation}
  {source : Value}

theorem lively_called (hb : b.Consistent) (hrules : b.rules ≠ []) (hsource : source ≠ .null)
    (hmakes : c.ground.Makes b.target pattern)
    {good : Rule → Bool → Proc → Set ℕ → Machine → Prop}
    (hgood : ∀ r ∈ b.rules, c.Conduct (expect r).promise.Left (good r))
    (hlively : ∀ r ∈ b.rules, c.Lively (good r))
    (hstart : ∀ r ∈ b.rules, ∀ m, c.Holds m → good r false (.fresh (r.evaluate source)) ∅ m) :
    c.Lively (Called c b source pattern (fun r ↦ (expect r).promise) good) := by
  have hrunning : ∀ {m₀ m : Machine} {target : Value} {built : Store} {p : Proc} {own : Set ℕ},
      c.Holds m₀ → pattern.Made b.target m₀.store target built →
      Plan.Gathered c (b.snapshot.plan (fun r ↦ (expect r).promise) m₀.store target built) good
        b.snapshot false p own m → c.Holds m → ∃ m' o, c.Course (m, p) (m', .settled o) :=
    fun hm₀ hmade ↦ Plan.lively_gathered
      (hb.isSound hmade.makesAnew _ (c.ground.base_le hm₀.ground)) hgood hlively _ _ _
  rintro p own m (⟨rfl, _⟩ | ⟨hc, _⟩ | ⟨m₀, target, built, hm₀, hmade, hp⟩) hm
  · obtain ⟨hpermits, target, built, hmade, hnext⟩ :=
      gathered_of_start hrules hsource hmakes hgood hstart hm rfl
    obtain ⟨m', o, hcourse⟩ := hrunning hm hmade hnext hpermits.holds
    exact ⟨m', o, .head (.move (.start rfl)) hcourse⟩
  · cases hc
  · exact hrunning hm₀ hmade hp hm

/-- A mapper comes to an end, wherever it is called, when the computes of its rules do. -/
theorem provides_answers (hb : b.Consistent) (hrules : b.rules ≠ [])
    (hmakes : c.ground.Makes b.target pattern)
    (hcomputes : ∀ r ∈ b.rules, c.Provides (expect r).promise.Left (r.evaluate source)) :
    c.Provides (b.Answers pattern expect source) (b.snapshot.transform source) := by
  by_cases hsource : source = .null
  · subst hsource
    exact (Commons.endsIn_give fun m _ ↦ Or.inl ⟨rfl, rfl⟩).provides
  · choose! good hgood hlively hstart using hcomputes
    exact ⟨_, hb.conduct_called hrules hsource hmakes hgood hstart,
      hb.lively_called hrules hsource hmakes hgood hlively hstart, fun _ _ ↦ Or.inl ⟨rfl, rfl⟩⟩

end Builder.Consistent

end Recast
