import Recast.Proofs.Course
import Recast.Proofs.InTurn
import Recast.Proofs.Pattern

/-!
Mappers as computes. Wherever the targets of a mapper are made like a pattern, the mapper gives what
the pattern tells when it is a compute itself: run side by side it keeps to its own in every order
of moves and comes to an end when its computes do (`Builder.Consistent.provides_transform`), and run
in turn it ends at once (`Builder.Consistent.endsIn_transformSync`). Run in turn, a compute may also
fail by the fault by which an iteration stops, which then passes the mapper as it is
(`Builder.Consistent.exists_run_transformSync`).
-/

set_option autoImplicit false

namespace Recast

/-! ### Making targets -/

/-- A target of a type is made anew and looks like a pattern: nothing that there was is changed, the
target is no fault object, and its objects are new and told apart. -/
structure Pattern.Made (pattern : Pattern) (type : String) (s : Store) (target : Value)
    (built : Store) : Prop where
  made : Action.construct type s = (.ok target, built)
  old : s.SameBelow s.records.size built
  ordinary : Mapper.failure? (.ok target) = none
  tree : built.IsTree target (Set.Ico s.records.size built.records.size)
  look_eq : built.look target = pattern.look

/-- Wherever a target of the type is made, it is made like the pattern. -/
def Surroundings.Makes (c : Surroundings) (type : String) (pattern : Pattern) : Prop :=
  ∀ m, c.holds m → m.store.types = pattern.store.types ∧
    ∃ target built, pattern.Made type m.store target built

section Made

variable {c : Surroundings} {b : Builder} {pattern : Pattern} {expect : Rule → Expectation}
  {m : Machine} {target : Value} {built : Store}

theorem Pattern.Made.makesAnew (h : pattern.Made b.target m.store target built) :
    b.snapshot.MakesAnew m.store target built :=
  ⟨h.made, h.old, h.ordinary, h.tree.unaliased _⟩

/-- The plan of a mapper that has just made its target. -/
theorem Pattern.Made.follows (h : pattern.Made b.target m.store target built)
    (hfields : ∀ r ∈ b.rules, r.kind = .field) (htypes : m.store.types = pattern.store.types) :
    (b.snapshot.plan (fun r ↦ (expect r).promise) m.store target built).Follows pattern expect where
  promise_eq := rfl
  field := hfields
  types_eq := h.old.types.trans htypes
  look_eq := h.look_eq
  tree := h.tree

theorem Pattern.Made.holds (h : pattern.Made b.target m.store target built) (hm : c.holds m) :
    c.holds { m with store := built } :=
  c.stable hm (h.old.mono (c.base_le hm))

theorem Pattern.Made.spares (h : pattern.Made b.target m.store target built) (kept : Set ℕ) :
    m.Spares kept { m with store := built } :=
  ⟨h.old.types, h.old.size_le, fun ref _ href ↦ h.old.records ref href⟩

end Made

/-! ### In turn -/

section InTurn

variable {c : Surroundings} {source : Value}

namespace Rule

variable {r : Rule} {m m₁ : Machine} {o : Outcome}

/-- The value of a rule's compute where nothing is waited for: an awaitable is given up and
refused. -/
def obtainSync (r : Rule) (source : Value) : Prog :=
  (r.obtain source).andThen fun v ↦
    if v.isAwaitable then .close v (Prog.fail (Fault.asynchronousRule [r.key])) else Prog.give v

/-- Without waiting, a rule runs as its compute and then its write. -/
theorem run_applySync (hcompute : m.run (r.obtainSync source) = (m₁, .settled o)) (target : Value) :
    m.run (r.applySync source target) =
      match o with
      | .ok v => m₁.run (r.write target v)
      | .error e => (m₁, .settled (.error e)) := by
  obtain ⟨m₀, o₀, hobtain, hrest⟩ := Machine.exists_of_run_bind hcompute
  rw [applySync, Prog.andThen, Machine.run_bind, hobtain, Machine.goOn]
  cases o₀ with
  | error e =>
    cases hrest
    rfl
  | ok v =>
    dsimp only at hrest ⊢
    by_cases hv : v.isAwaitable = true
    · rw [if_pos hv] at hrest ⊢
      cases hrest
      rfl
    · rw [if_neg hv] at hrest ⊢
      cases hrest
      rfl

/-- A rule whose compute ends at once takes the same turn when it is followed by its write as a
coroutine, unless the compute fails by the fault by which an iteration stops. -/
theorem exists_turn (hvalid : r.slot.IsValid) (hpath : r.slot.path ≠ [])
    (hcompute : m.run (r.obtainSync source) = (m₁, .settled o)) (target : Value) :
    ∃ m' o', m.run (r.applySync source target) = (m', .settled o') ∧
      (m.run ((r.obtainSync source).asCoroutine.bind (r.finish target)) = (m', .settled o') ∨
        ∃ e, e.StopsIteration ∧ o = .error e ∧ m' = m₁ ∧ o' = .error e) := by
  have happly := run_applySync hcompute target
  have hcoroutine : m.run (r.obtainSync source).asCoroutine = m₁.run (Prog.guarded o) := by
    rw [Prog.asCoroutine, Machine.run_bind, hcompute, Machine.goOn]
  cases o with
  | error e =>
    refine ⟨m₁, _, happly, ?_⟩
    by_cases he : e.StopsIteration
    · exact Or.inr ⟨e, he, rfl, rfl, rfl⟩
    · rw [Prog.guarded_eq fun e' heq ↦ Except.error.inj heq ▸ he, Machine.run_done] at hcoroutine
      rw [Machine.run_bind, hcoroutine, Machine.goOn]
      exact Or.inl (r.run_finish_error target he m₁)
  | ok v =>
    obtain ⟨s, o', hwrite, _, _, hrefused⟩ :=
      r.exists_run_write hvalid hpath target v m₁ 0 fun _ _ ↦ Nat.zero_le _
    refine ⟨{ m₁ with store := s }, o', happly.trans hwrite, Or.inl ?_⟩
    have hgiven : m.run (r.obtainSync source).asCoroutine = (m₁, .settled (.ok v)) := hcoroutine
    rw [Machine.run_bind, hgiven, Machine.goOn, finish, Prog.asCoroutine, Machine.run_bind,
      hwrite, Machine.goOn, Prog.guarded_eq hrefused, Machine.run_done]

end Rule

/-- The plan fails in turn by a fault: what leaves a coroutine that ends in it is a failure of the
earliest rule that fails. When it stops an iteration, a compute has failed by it. -/
structure Plan.FailsInTurn (plan : Plan) (c : Surroundings) (source : Value) (e : Raised) :
    Prop where
  earliest : ∃ is, plan.failure? = some is ∧ ∀ e', LetOut (.error e) (.error e') → is e'
  stopped : e.StopsIteration → ∃ r ∈ plan.rules, ∃ m, c.holds m ∧
    (m.run (r.obtainSync source)).2 = .settled (.error e)

/-- A rule takes its turn like one that runs beside others, or its compute fails as it promised by
the fault by which an iteration stops. -/
def Plan.TakesTurn (plan : Plan) (c : Surroundings) (source : Value) (r : Rule) : Prop :=
  ∀ m, c.holds m → ∃ m' o, m.run (r.applySync source plan.target) = (m', .settled o) ∧
    (m.run ((r.obtainSync source).asCoroutine.bind (r.finish plan.target)) = (m', .settled o) ∨
      ∃ e, e.StopsIteration ∧ o = .error e ∧ m.run (r.obtainSync source) = (m', .settled o) ∧
        c.holds m' ∧ m.Spares (c.others ∅) m' ∧ (plan.promise r).Left m' o)

/-- So does a rule whose compute ends at once as promised. -/
theorem Plan.takesTurn_of_endsIn {plan : Plan} {r : Rule} (hvalid : r.slot.IsValid)
    (hpath : r.slot.path ≠ [])
    (hends : c.EndsIn (plan.promise r).Left (r.obtainSync source)) : plan.TakesTurn c source r := by
  intro m hm
  obtain ⟨m₁, o, hrun, hm₁, hspares, ho⟩ := hends m hm
  obtain ⟨m', o', hsync, hsame | ⟨e, he, rfl, rfl, rfl⟩⟩ :=
    Rule.exists_turn hvalid hpath hrun plan.target
  · exact ⟨m', o', hsync, Or.inl hsame⟩
  · exact ⟨m', _, hsync, Or.inr ⟨e, he, rfl, hrun, hm₁, hspares, ho m' hm₁ (.refl m' _)⟩⟩

/-- The first rule that fails is the earliest. -/
theorem Plan.failure?_of_first {plan : Plan} {before rest : List Rule} {r : Rule}
    (hrules : plan.rules = before ++ r :: rest) (hbefore : ∀ r ∈ before, plan.failureOf? r = none)
    {is : Raised → Prop} (hfails : plan.failureOf? r = some is) : plan.failure? = some is := by
  rw [failure?, hrules, List.findSome?_append, List.findSome?_eq_none_iff.mpr hbefore,
    List.findSome?_cons, hfails]
  rfl

/-- A fault that does not stop an iteration is let out as it is. -/
theorem Plan.failsInTurn_of_earliest {plan : Plan} {is : Raised → Prop} {e : Raised}
    (hearliest : plan.failure? = some is) (he : is e) : plan.FailsInTurn c source e := by
  have hsame := not_stopsIteration_of_failure? hearliest he
  refine ⟨⟨is, hearliest, fun e' hout ↦ ?_⟩, fun hstops ↦ absurd hstops hsame⟩
  cases hout with
  | same => exact he
  | stopped hstops => exact absurd hstops hsame

/-- A fault by which a compute stops an iteration, as it promised, may be let out as another. -/
theorem Plan.failsInTurn_of_left {plan : Plan} {before rest : List Rule} {r : Rule}
    (hrules : plan.rules = before ++ r :: rest) (hbefore : ∀ r ∈ before, plan.failureOf? r = none)
    {m m' : Machine} {e : Raised} (hm : c.holds m)
    (hobtain : m.run (r.obtainSync source) = (m', .settled (.error e)))
    (hleft : (plan.promise r).Left m' (.error e)) : plan.FailsInTurn c source e := by
  have hr : r ∈ plan.rules := by simp [hrules]
  refine ⟨?_, fun _ ↦ ⟨r, hr, m, hm, by rw [hobtain]⟩⟩
  cases hpromise : plan.promise r with
  | value is => exact absurd (hpromise ▸ hleft) Promise.Left.not_value
  | fault is =>
    have hfails : plan.failureOf? r = some fun e ↦ is e ∧ ¬ e.StopsIteration := by
      rw [failureOf?, hpromise]
    rw [hpromise] at hleft
    exact ⟨_, failure?_of_first hrules hbefore hfails, fun e' hout ↦ hleft _ hout⟩

/-- Rules that take turns are under way like rules that run side by side, up to the first that
fails. -/
theorem Plan.Underway.run_sequence {plan : Plan} {good : Rule → Proc → Set ℕ → Machine → Prop}
    (hplan : plan.IsSound c.base)
    (hgood : ∀ r ∈ plan.rules, c.Discipline (plan.promise r).Kept (good r))
    (hturn : ∀ r ∈ plan.rules, plan.TakesTurn c source r)
    {before rest : List Rule} (hrules : plan.rules = before ++ rest)
    (hbefore : ∀ r ∈ before, plan.failureOf? r = none) {os : List Outcome} {own : Set ℕ}
    {owns : ℕ → Set ℕ} {m : Machine} (hm : c.holds m) (hos : os.length = before.length)
    (h : plan.Underway c good own owns m (os.map .settled ++
      (rest.map fun r ↦ (r.obtainSync source).asCoroutine.bind (r.finish plan.target)).map .fresh))
    (f : List Value → Prog) :
    ∃ m', c.holds m' ∧ m.Spares (c.others own) m' ∧
      ((∃ e, m.run (Prog.sequence (rest.map fun r ↦ r.applySync source plan.target) f) =
          (m', .settled (.error e)) ∧ plan.FailsInTurn c source e) ∨
        ∃ vs, ∃ os' : List Outcome, ∃ owns',
          m.run (Prog.sequence (rest.map fun r ↦ r.applySync source plan.target) f) =
            m'.run (f vs) ∧ plan.failure? = none ∧
          plan.Underway c good (own ∪ m.made m') owns' m' (os'.map .settled)) := by
  induction rest generalizing before os own owns m f with
  | nil =>
    refine ⟨m, hm, .refl m _, Or.inr ⟨[], os, owns, rfl, ?_, ?_⟩⟩
    · rw [failure?, hrules, List.append_nil]
      exact List.findSome?_eq_none_iff.mpr hbefore
    · rw [m.made_self, Set.union_empty]
      simpa using h
  | cons r rest ih =>
    have hr : r ∈ plan.rules := by simp [hrules]
    obtain ⟨m₁, o, hsync, happly | ⟨e, he, rfl, hobtain, hm₁, hspares, hleft⟩⟩ := hturn r hr m hm
    · obtain ⟨hm₁, hspares, owns₁, hunder⟩ := h.move hplan hgood hm (.start happly)
      have hended : plan.Ended m₁ r o := by
        have hi : plan.rules[before.length]? = some r := by simp [hrules]
        have hp : (os.map Proc.settled ++ .settled o ::
            (rest.map fun r ↦ (r.obtainSync source).asCoroutine.bind (r.finish plan.target)).map
              .fresh)[before.length]? = some (.settled o) := by simp [← hos]
        exact (hunder.stage _ _ _ hi hp).ended (hgood r hr) hm₁
      rw [List.map_cons, Prog.sequence, Prog.andThen, Machine.run_bind, hsync, Machine.goOn]
      cases o with
      | error e =>
        cases hended with
        | failed hfails he =>
          exact ⟨m₁, hm₁, hspares, Or.inl ⟨e, Machine.run_raise e m₁,
            failsInTurn_of_earliest (failure?_of_first hrules hbefore hfails) he⟩⟩
      | ok w =>
        have hnone : plan.failureOf? r = none := by cases hended <;> assumption
        have hlength : (os ++ [Except.ok w]).length = (before ++ [r]).length := by simp [hos]
        obtain ⟨m', hm', hspares', hcase⟩ := ih (by simp [hrules])
          (List.forall_mem_append.mpr ⟨hbefore, List.forall_mem_singleton.mpr hnone⟩) hm₁
          hlength (by simpa using hunder) fun vs ↦ f (w :: vs)
        refine ⟨m', hm', Surroundings.spares_trans hspares hspares', ?_⟩
        rcases hcase with hfailed | ⟨vs, os', owns', hrun, hnone, hunder'⟩
        · exact Or.inl hfailed
        · refine Or.inr ⟨w :: vs, os', owns', hrun, hnone, ?_⟩
          rw [← Machine.made_union_made hspares.size_le hspares'.size_le, ← Set.union_assoc]
          exact hunder'
    · rw [List.map_cons, Prog.sequence, Prog.andThen, Machine.run_bind, hsync, Machine.goOn]
      exact ⟨m₁, hm₁, hspares.mono (c.others_mono (Set.empty_subset own)),
        Or.inl ⟨e, Machine.run_raise e m₁, failsInTurn_of_left hrules hbefore hm hobtain hleft⟩⟩

end InTurn

namespace Builder.Consistent

variable {c : Surroundings} {b : Builder} {source : Value} {pattern : Pattern}
  {expect : Rule → Expectation}

/-! ### Side by side -/

/-- The mapper has not begun, or it has made a target like the pattern and its rules run. -/
def Engaged (c : Surroundings) (b : Builder) (source : Value) (pattern : Pattern)
    (expect : Rule → Expectation) (good : Rule → Proc → Set ℕ → Machine → Prop) (p : Proc)
    (own : Set ℕ) (m : Machine) : Prop :=
  p = .fresh (b.snapshot.transform source) ∧ own = ∅ ∨
    ∃ m₀ target built, c.holds m₀ ∧ pattern.Made b.target m₀.store target built ∧
      Plan.Gathering c (b.snapshot.plan (fun r ↦ (expect r).promise) m₀.store target built) good
        b.snapshot p own m

section Engaged

variable {good : Rule → Proc → Set ℕ → Machine → Prop}

/-- The first move of a mapper makes its target and starts its rules. -/
theorem gathering_of_start (expect : Rule → Expectation) (hrules : b.rules ≠ [])
    (hsource : source ≠ .null) (hmakes : c.Makes b.target pattern)
    (hstart : ∀ r ∈ b.rules, ∀ m, c.holds m → good r (.fresh (r.evaluate source)) ∅ m)
    {m m' : Machine} {q : Proc} (hm : c.holds m)
    (hrun : m.run (b.snapshot.transform source) = (m', q)) :
    c.holds m' ∧ (∀ kept, m.Spares kept m') ∧
      ∃ target built, pattern.Made b.target m.store target built ∧
        Plan.Gathering c (b.snapshot.plan (fun r ↦ (expect r).promise) m.store target built) good
          b.snapshot q (m.made m') m' := by
  obtain ⟨_, target, built, hmade⟩ := hmakes m hm
  cases (b.snapshot.run_transform hrules hsource hmade.made).symm.trans hrun
  exact ⟨hmade.holds hm, hmade.spares, target, built, hmade, _, _,
    Plan.underway_start rfl fun r hr ↦ hstart r hr _ (hmade.holds hm), Or.inl rfl⟩

/-- A mapper keeps to its own and gives what is expected of it, in every order of moves. -/
theorem discipline_engaged (hb : b.Consistent) (hfields : ∀ r ∈ b.rules, r.kind = .field)
    (hrules : b.rules ≠ []) (hsource : source ≠ .null) (hmakes : c.Makes b.target pattern)
    (hgood : ∀ r ∈ b.rules, c.Discipline (expect r).promise.Kept (good r))
    (hstart : ∀ r ∈ b.rules, ∀ m, c.holds m → good r (.fresh (r.evaluate source)) ∅ m) :
    c.Discipline (pattern.expectation (Plan.writes expect b.rules)).promise.Kept
      (Engaged c b source pattern expect good) := by
  have hdisc : ∀ {m : Machine} {target : Value} {built : Store}, c.holds m →
      pattern.Made b.target m.store target built →
      c.Discipline (b.snapshot.plan (fun r ↦ (expect r).promise) m.store target built).Ending
        (Plan.Gathering c _ good b.snapshot) := fun hm hmade ↦
    Plan.discipline_gathering (hb.isSound hmade.makesAnew _ (c.base_le hm)) hgood rfl
  constructor
  · rintro p own m m' (hfresh | ⟨m₀, target, built, hm₀, hmade, hp⟩) hm hm' hspares
    · exact Or.inl hfresh
    · exact Or.inr ⟨m₀, target, built, hm₀, hmade,
        (hdisc hm₀ hmade).undisturbed hp hm hm' hspares⟩
  · rintro p q own m m' (⟨rfl, rfl⟩ | ⟨m₀, target, built, hm₀, hmade, hp⟩) hm hmove
    · cases hmove with
      | start hrun =>
        obtain ⟨hholds, hspares, target, built, hmade, hnext⟩ :=
          gathering_of_start expect hrules hsource hmakes hstart hm hrun
        rw [Set.empty_union]
        exact ⟨hholds, hspares _, Or.inr ⟨m, target, built, hm, hmade, hnext⟩⟩
    · obtain ⟨hholds, hspares, hnext⟩ := (hdisc hm₀ hmade).move hp hm hmove
      exact ⟨hholds, hspares, Or.inr ⟨m₀, target, built, hm₀, hmade, hnext⟩⟩
  · rintro o own m (⟨hfresh, _⟩ | ⟨m₀, target, built, hm₀, hmade, hp⟩) hm
    · cases hfresh
    · obtain ⟨htypes₀, _⟩ := hmakes m₀ hm₀
      obtain ⟨htypes, _⟩ := hmakes m hm
      have hbuilt := hmade.old.types.trans htypes₀
      exact (hmade.follows hfields htypes₀).kept (htypes.trans hbuilt.symm)
        ((hdisc hm₀ hmade).ended hp hm)

theorem lively_engaged (hb : b.Consistent) (hrules : b.rules ≠ []) (hsource : source ≠ .null)
    (hmakes : c.Makes b.target pattern)
    (hgood : ∀ r ∈ b.rules, c.Discipline (expect r).promise.Kept (good r))
    (hlively : ∀ r ∈ b.rules, c.Lively (good r))
    (hstart : ∀ r ∈ b.rules, ∀ m, c.holds m → good r (.fresh (r.evaluate source)) ∅ m) :
    c.Lively (Engaged c b source pattern expect good) := by
  have hrunning : ∀ {m₀ m : Machine} {target : Value} {built : Store} {p : Proc} {own : Set ℕ},
      c.holds m₀ → pattern.Made b.target m₀.store target built →
      Plan.Gathering c (b.snapshot.plan (fun r ↦ (expect r).promise) m₀.store target built) good
        b.snapshot p own m → c.holds m → ∃ m' o, c.Course (m, p) (m', .settled o) :=
    fun hm₀ hmade ↦ Plan.lively_gathering
      (hb.isSound hmade.makesAnew _ (c.base_le hm₀)) hgood hlively _ _ _
  rintro p own m (⟨rfl, rfl⟩ | ⟨m₀, target, built, hm₀, hmade, hp⟩) hm
  · obtain ⟨hholds, _, target, built, hmade, hnext⟩ :=
      gathering_of_start expect hrules hsource hmakes hstart hm rfl
    obtain ⟨m', o, hcourse⟩ := hrunning hm hmade hnext hholds
    exact ⟨m', o, .head (.move (.start rfl)) hcourse⟩
  · exact hrunning hm₀ hmade hp hm

end Engaged

/-- A mapper that runs its rules side by side provides what is expected of it. -/
theorem provides_transform (hb : b.Consistent) (hfields : ∀ r ∈ b.rules, r.kind = .field)
    (hrules : b.rules ≠ []) (hsource : source ≠ .null) (hmakes : c.Makes b.target pattern)
    (hcomputes : ∀ r ∈ b.rules, c.Provides (expect r).promise.Kept (r.evaluate source)) :
    c.Provides (pattern.expectation (Plan.writes expect b.rules)).promise.Kept
      (b.snapshot.transform source) := by
  choose! good hgood hlively hstart using hcomputes
  exact ⟨_, hb.discipline_engaged hfields hrules hsource hmakes hgood hstart,
    hb.lively_engaged hrules hsource hmakes hgood hlively hstart, fun _ _ ↦ Or.inl ⟨rfl, rfl⟩⟩

/-! ### In turn -/

/-- A mapper that runs its rules in turn ends at once: as is expected of it, or by the fault by
which an iteration stops, which leaves a coroutine as is expected. -/
theorem exists_run_transformSync (hb : b.Consistent) (hfields : ∀ r ∈ b.rules, r.kind = .field)
    (hsource : source ≠ .null) (hmakes : c.Makes b.target pattern)
    (hcomputes : ∀ r ∈ b.rules, c.EndsIn (expect r).promise.Left (r.obtainSync source))
    {m : Machine} (hm : c.holds m) :
    ∃ m' o, m.run (b.snapshot.transformSync source) = (m', .settled o) ∧ c.holds m' ∧
      m.Spares (c.others ∅) m' ∧
      (∀ m'', c.holds m'' → m'.Spares (m.made m') m'' →
        (pattern.expectation (Plan.writes expect b.rules)).promise.Left m'' o) ∧
      ∀ e, o = .error e → e.StopsIteration → ∃ r ∈ b.rules, ∃ m₀, c.holds m₀ ∧
        (m₀.run (r.obtainSync source)).2 = .settled (.error e) := by
  obtain ⟨htypes, target, built, hmade⟩ := hmakes m hm
  have hfollows : (b.snapshot.plan (fun r ↦ (expect r).promise) m.store target built).Follows
      pattern expect := hmade.follows hfields htypes
  have hverdict : (Plan.writes expect b.rules).findSome? pattern.failureOf? = _ :=
    hfollows.findSome?_writes
  have hplan := hb.isSound hmade.makesAnew (fun r ↦ (expect r).promise) (c.base_le hm)
  have hgood : ∀ r ∈ b.rules, c.Discipline (expect r).promise.Kept
      (c.AtOnce (expect r).promise.Kept (r.obtainSync source).asCoroutine) := fun r hr ↦ by
    have hends : c.EndsIn (expect r).promise.Kept (r.obtainSync source).asCoroutine :=
      (hcomputes r hr).asCoroutine.mono fun m o' hout ↦ by
        obtain ⟨o, hleft, hends⟩ := hout
        exact hleft o' hends
    exact hends.discipline
  have hturn : ∀ r ∈ b.rules,
      (b.snapshot.plan (fun r ↦ (expect r).promise) m.store target built).TakesTurn c source r :=
    fun r hr ↦ Plan.takesTurn_of_endsIn (hb.valid r hr) (hb.path_ne_nil hr (hfields r hr))
      (hcomputes r hr)
  have hbegun : Plan.Underway c (b.snapshot.plan (fun r ↦ (expect r).promise) m.store target built)
      (fun r ↦ c.AtOnce (expect r).promise.Kept (r.obtainSync source).asCoroutine) _ (fun _ ↦ ∅)
      { m with store := built } (([] : List Outcome).map .settled ++
        (b.rules.map fun r ↦
          (r.obtainSync source).asCoroutine.bind (r.finish target)).map .fresh) :=
    Plan.underway_begin rfl fun r _ ↦ Or.inl ⟨rfl, rfl⟩
  obtain ⟨m', hm', hspares, hcase⟩ := hbegun.run_sequence hplan hgood hturn
    (List.nil_append _).symm (fun _ h ↦ by cases h) (hmade.holds hm) rfl
    fun results ↦ Prog.give (b.snapshot.result target results)
  have hmap := b.snapshot.run_transformSync hsource hmade.made
  have hothers : m.Spares (c.others ∅) m' := by
    refine Surroundings.spares_trans (hmade.spares _) ?_
    rw [Set.empty_union]
    exact hspares
  rcases hcase with ⟨e, hrun, ⟨is, hfails, hout⟩, hstopped⟩ | ⟨vs, os, owns, hrun, hnone, hunder⟩
  · refine ⟨m', .error e, hmap.trans hrun, hm', hothers, fun m'' _ _ o' ho' ↦ ?_,
      fun e' he' ↦ Except.error.inj he' ▸ hstopped⟩
    rw [Pattern.expectation, hverdict, hfails]
    cases ho' with
    | same hsame =>
      exact ⟨hout e (.same hsame), hsame e rfl⟩
    | stopped hstops id =>
      exact ⟨hout _ (.stopped hstops id), not_stopsIteration_await id _⟩
  · rw [Machine.run_give, Mapper.result_of_field hfields] at hrun
    refine ⟨m', .ok target, hmap.trans hrun, hm', hothers, fun m'' hm'' hspares'' ↦ ?_,
      fun _ h ↦ by cases h⟩
    have hown : (b.snapshot.plan (fun r ↦ (expect r).promise) m.store target built).region ∪
        Machine.made { m with store := built } m' = m.made m' :=
      Machine.made_union_made hmade.old.size_le hspares.size_le
    rw [hown] at hunder
    have hending := (hunder.undisturbed hplan hgood hm' hm'' hspares'').ending hplan hgood hm''
      rfl (Proc.outcomes?_eq_some_iff.mpr rfl)
    rw [hfollows.eq_target hending hnone] at hending
    exact (hfollows.kept ((hmakes _ hm'').1.trans hfollows.types_eq.symm) hending).left

/-- It ends in what is expected of it, where no compute stops an iteration. -/
theorem endsIn_transformSync (hb : b.Consistent) (hfields : ∀ r ∈ b.rules, r.kind = .field)
    (hsource : source ≠ .null) (hmakes : c.Makes b.target pattern)
    (hcomputes : ∀ r ∈ b.rules, c.EndsIn (expect r).promise.Kept (r.obtainSync source)) :
    c.EndsIn (pattern.expectation (Plan.writes expect b.rules)).promise.Kept
      (b.snapshot.transformSync source) := by
  intro m hm
  obtain ⟨m', o, hrun, hm', hspares, hleft, hstopped⟩ := hb.exists_run_transformSync hfields hsource
    hmakes (fun r hr ↦ (hcomputes r hr).mono fun _ _ ↦ Promise.Kept.left) hm
  refine ⟨m', o, hrun, hm', hspares, fun m'' hm'' hspares'' ↦ hleft m'' hm'' hspares'' o (.same ?_)⟩
  intro e he hstops
  obtain ⟨r, hr, m₀, hm₀, hcompute⟩ := hstopped e he hstops
  obtain ⟨m₁, o₁, hrun₁, hm₁, _, hkept⟩ := hcomputes r hr m₀ hm₀
  obtain rfl : o₁ = .error e := by
    rw [hrun₁] at hcompute
    exact Proc.settled.inj hcompute
  exact Promise.not_stopsIteration (hkept m₁ hm₁ (.refl m₁ _)) hstops

end Builder.Consistent

/-! ### Mappers as computes -/

/-- The two kinds of mappers. -/
inductive Mapper.Kind where
  | asynchronous
  | synchronous

/-- The mapper of a kind of the rules collected so far. -/
def Builder.mapperOf (b : Builder) : Mapper.Kind → Except BuildError Mapper
  | .asynchronous => b.build
  | .synchronous => b.buildSync

namespace Mapper

/-- What a mapper of a kind does with a source. -/
def program (mapper : Mapper) : Kind → Value → Prog
  | .asynchronous => mapper.transform
  | .synchronous => mapper.transformSync

/-- A mapper of a kind as the compute of a rule. -/
def compute (mapper : Mapper) : Kind → Compute
  | .asynchronous => .asynchronous mapper.transform
  | .synchronous => .plain mapper.transformSync

end Mapper

/-- Wherever a compute is called with the source, in a mapper of a kind, it does what is expected
and comes to an end. In a synchronous mapper it does so at once. -/
def Surroundings.Gives (c : Surroundings) (source : Value) (e : Expectation) (f : Compute) :
    Mapper.Kind → Prop
  | .asynchronous => ∀ r : Rule, r.compute = f → c.Provides e.promise.Kept (r.evaluate source)
  | .synchronous => ∀ r : Rule, r.compute = f → c.EndsIn e.promise.Kept (r.obtainSync source)

namespace Rule

/-- A compute that is no awaitable is called. -/
theorem obtain_eq {r : Rule} (h : r.compute.isAwaitable = false) (source : Value) :
    r.obtain source = r.compute.invoke source := by
  unfold obtain
  cases hcompute : r.compute with
  | literal v =>
    rw [hcompute] at h
    exact if_neg (Bool.eq_false_iff.mp h)
  | _ => rfl

end Rule

namespace Surroundings

variable {c : Surroundings} {source : Value} {e : Expectation} {f : Compute}

/-- No awaitable is given up when none is obtained. -/
theorem EndsIn.obtainSync {result : Machine → Outcome → Prop} {r : Rule}
    (h : c.EndsIn result (r.obtain source))
    (hvalues : ∀ m v, result m (.ok v) → v.isAwaitable = false) :
    c.EndsIn result (r.obtainSync source) := by
  intro m hm
  obtain ⟨m', o, hrun, hholds, hspares, ho⟩ := h m hm
  refine ⟨m', o, ?_, hholds, hspares, ho⟩
  rw [Rule.obtainSync, Prog.andThen, Machine.run_bind, hrun, Machine.goOn]
  cases o with
  | error e => rfl
  | ok v =>
    have hv := hvalues m' v (ho m' hholds (.refl m' _))
    dsimp only
    rw [hv]
    rfl

/-- A compute that ends at once, and never in an awaitable, can be used in both kinds of mappers. -/
theorem EndsIn.gives (h : c.EndsIn e.promise.Kept (f.invoke source))
    (hawaitable : f.isAwaitable = false) (hasync : f.isAsync = false)
    (hvalues : ∀ m v, e.promise.Kept m (.ok v) → v.isAwaitable = false) (kind : Mapper.Kind) :
    c.Gives source e f kind := by
  have hobtain : ∀ r : Rule, r.compute = f → c.EndsIn e.promise.Kept (r.obtain source) := by
    rintro r rfl
    rwa [Rule.obtain_eq hawaitable]
  cases kind with
  | synchronous => exact fun r hr ↦ (hobtain r hr).obtainSync hvalues
  | asynchronous =>
    intro r hr
    have hsync : r.isAsync = false := by
      rw [Rule.isAsync, hr, hawaitable, hasync]
      rfl
    rw [Rule.evaluate_eq hsync]
    exact ((hobtain r hr).andThen_await hvalues).provides

end Surroundings

theorem Value.isAwaitable_shell (v : Value) : v.shell.isAwaitable = v.isAwaitable := by
  cases v <;> rfl

/-- What has an attribute is no awaitable. -/
theorem Store.isAwaitable_of_attribute? {s : Store} {v w : Value} {name : String}
    (h : s.attribute? v name = some w) : v.isAwaitable = false := by
  cases v with
  | awaitable kind id => cases h
  | _ => rfl

namespace Pattern

/-- A target with a field that can be written is no awaitable. -/
theorem isAwaitable_target {pattern : Pattern} {slot : Slot} (hpath : slot.path ≠ [])
    (h : pattern.refusal? slot = none) : pattern.target.isAwaitable = false := by
  obtain ⟨place, hland⟩ := Store.refusal?_eq_none_iff.mp h
  cases place with
  | none => exact absurd (Store.path_eq_nil_of_landing hland) hpath
  | some p =>
    obtain ⟨parents, _, hwalk⟩ := Store.exists_of_landing hland
    cases parents with
    | nil =>
      have htarget : pattern.target = .record p.ref p.type := Option.some.inj hwalk
      rw [htarget]
      rfl
    | cons name rest =>
      rw [Store.walk] at hwalk
      cases hread : pattern.store.attribute? pattern.target name with
      | none =>
        rw [hread] at hwalk
        cases hwalk
      | some w => exact Store.isAwaitable_of_attribute? hread

/-- A mapper of field rules is not expected to give an awaitable. -/
theorem isAwaitable_of_kept {pattern : Pattern} {writes : List Write} (hne : writes ≠ [])
    (hpath : ∀ w ∈ writes, w.1.path ≠ []) {m : Machine} {v : Value}
    (h : (pattern.expectation writes).promise.Kept m (.ok v)) : v.isAwaitable = false := by
  rw [expectation] at h
  cases hnone : writes.findSome? pattern.failureOf? with
  | some is =>
    rw [hnone] at h
    exact h.elim
  | none =>
    rw [hnone] at h
    have hlook : m.store.look v = overlay pattern.look writes := h
    have hroot : overlay pattern.look writes [] = pattern.look [] := by
      refine overlay_away fun w hw hbegins ↦ hpath w hw ?_
      exact List.map_eq_nil_iff.mp (List.prefix_nil.mp hbegins)
    have hshell : v.shell = pattern.target.shell :=
      Option.some.inj ((congrFun hlook []).trans hroot)
    obtain ⟨w, hw⟩ := List.exists_mem_of_ne_nil writes hne
    have hwrite := failureOf?_eq_none_iff.mp (List.findSome?_eq_none_iff.mp hnone w hw)
    rw [← v.isAwaitable_shell, hshell, Value.isAwaitable_shell]
    exact isAwaitable_target (hpath w hw) hwrite.2

end Pattern

namespace Builder.Consistent

variable {c : Surroundings} {b : Builder} {source : Value} {pattern : Pattern}
  {expect : Rule → Expectation} {kind : Mapper.Kind}

/-- A mapper whose computes do what is expected provides what is expected. -/
theorem provides_program (hb : b.Consistent) (hfields : ∀ r ∈ b.rules, r.kind = .field)
    (hrules : b.rules ≠ []) (hsource : source ≠ .null) (hmakes : c.Makes b.target pattern)
    (hcomputes : ∀ r ∈ b.rules, c.Gives source (expect r) r.compute kind) :
    c.Provides (pattern.expectation (Plan.writes expect b.rules)).promise.Kept
      (b.snapshot.program kind source) := by
  cases kind with
  | asynchronous =>
    exact hb.provides_transform hfields hrules hsource hmakes fun r hr ↦ hcomputes r hr r rfl
  | synchronous =>
    exact (hb.endsIn_transformSync hfields hsource hmakes fun r hr ↦ hcomputes r hr r rfl).provides

/-- A mapper whose computes do what is expected is itself a compute that does, in a mapper of its
kind; a synchronous one also in an asynchronous mapper. -/
theorem gives_compute (hb : b.Consistent) (hfields : ∀ r ∈ b.rules, r.kind = .field)
    (hrules : b.rules ≠ []) (hsource : source ≠ .null) (hmakes : c.Makes b.target pattern)
    {innerKind : Mapper.Kind} (hkinds : innerKind = kind ∨ innerKind = .synchronous)
    (hcomputes : ∀ r ∈ b.rules, c.Gives source (expect r) r.compute innerKind) :
    c.Gives source (pattern.expectation (Plan.writes expect b.rules))
      (b.snapshot.compute innerKind) kind := by
  cases innerKind with
  | asynchronous =>
    obtain rfl : .asynchronous = kind := hkinds.resolve_right nofun
    intro r hr
    have hevaluate : r.evaluate source = (b.snapshot.transform source).asCoroutine := by
      rw [Rule.evaluate, hr]
      rfl
    rw [hevaluate]
    exact (hb.provides_program hfields hrules hsource hmakes hcomputes).asCoroutine
      fun m e he ↦ Promise.not_stopsIteration he
  | synchronous =>
    have hends := hb.endsIn_transformSync hfields hsource hmakes fun r hr ↦ hcomputes r hr r rfl
    refine Surroundings.EndsIn.gives hends rfl rfl (fun m v hv ↦ ?_) kind
    refine Pattern.isAwaitable_of_kept ?_ ?_ hv
    · simpa [Plan.writes] using hrules
    · exact List.forall_mem_map.mpr fun r hr ↦ hb.path_ne_nil hr (hfields r hr)

end Builder.Consistent

end Recast
