import Recast.Proofs.Schedule

/-!
Rules that take turns. When no compute has to be waited for, the rules of a mapper can run one after
the other (`Turns`): each computes once and then writes. That takes computes that end at once where
the facts hold that are relied on (`Surroundings.ReturnsAtOnce`), and a target that is made anew. A
round of the asynchronous mapper is such a succession of turns (`Turns.advanceAll_eq`), and the
synchronous mapper takes the same turns up to the first that fails (`Turns.run_sequence`). So the
two mappers agree, and they agree whatever the order when the computes depend on the source alone
(`Builder.sync_agrees_with_async`).
-/

set_option autoImplicit false

namespace Recast

/-! ### Computes that need no waiting -/

namespace Compute

/-- A compute that is not asynchronous is called, and its value awaited where need be. -/
theorem evaluate_eq {c : Compute} (hc : c.isAsync = false) (source : Value) :
    c.evaluate source = (c.invoke source).andThen await := by
  induction c with
  | asynchronous run => cases hc
  | wrapped inner ih => exact ih hc
  | object asynchronous run =>
    cases asynchronous with
    | true => cases hc
    | false => rfl
  | _ => rfl

end Compute

namespace Rule

/-- The rule that is known to need no awaiting calls its compute and awaits the value where need
be. -/
theorem evaluate_eq {r : Rule} (hr : r.isAsync = false) (source : Value) :
    r.evaluate source = (r.obtain source).andThen Compute.await := by
  obtain ⟨_, hasync⟩ := Bool.or_eq_false_iff.mp hr
  unfold evaluate obtain
  cases hcompute : r.compute with
  | literal v => rfl
  | _ => exact Compute.evaluate_eq (hcompute ▸ hasync) source

section

variable {r : Rule} {source target v : Value} {m m' : Machine}

/-- What a write into a field ends in: the target, with the attribute set, or a fault that leaves a
coroutine as it is. -/
theorem exists_run_write (hvalid : r.slot.IsValid) (hpath : r.slot.path ≠ []) (target v : Value)
    (m : Machine) (base : ℕ)
    (hbase : ∀ p, m.store.landing target r.slot = .ok (some p) → base ≤ p.ref) :
    ∃ s o, m.run (r.write target v) = ({ m with store := s }, .settled o) ∧
      m.store.Wrote base (m.store.landing target r.slot) s ∧
      (∀ w, o = .ok w → w = target) ∧ ∀ e, o = .error e → ¬ e.StopsIteration := by
  have hrecords := r.binder.records_compiled m.store
  have hcompiled := r.binder.sameBelow_compiled base m.store
  rw [write, Machine.run_ofAction, Machine.act, r.binder_write, Slot.write_eq hvalid,
    r.binder.landing_compiled]
  cases hland : m.store.landing target r.slot with
  | error refusal =>
    refine ⟨_, _, rfl, Store.wrote_of_records_eq
      (hcompiled.trans (Store.sameBelow_count base _)) hrecords, ?_,
      fun e he ↦ Except.error.inj he ▸ not_stopsIteration_toFault _ _ _⟩
    intro w hw
    cases hw
  | ok place =>
    cases place with
    | none => exact absurd (Store.path_eq_nil_of_landing hland) hpath
    | some p =>
      have hbelow : m.store.Wrote base (.ok (some p)) (r.binder.compiled m.store) :=
        Store.wrote_of_records_eq hcompiled hrecords
      refine ⟨_, _, rfl, hbelow.put (hbase p hland) v, fun w hw ↦ (Except.ok.inj hw).symm, ?_⟩
      intro e he
      cases he

/-- A rule whose compute gives a value runs as its compute and then its write. -/
theorem run_apply_ok (hr : r.isAsync = false)
    (hcompute : m.run (r.obtain source) = (m', .settled (.ok v)))
    (hv : v.isAwaitable = false) {m'' : Machine} {o : Outcome}
    (hwrite : m'.run (r.write target v) = (m'', .settled o))
    (ho : ∀ e, o = .error e → ¬ e.StopsIteration) :
    m.run (r.apply source target) = (m'', .settled o) := by
  rw [apply_eq, evaluate_eq hr, Machine.run_bind, Prog.andThen, Machine.run_bind, hcompute,
    Machine.goOn]
  dsimp only
  rw [Compute.await, hv, if_neg (by decide), Machine.run_give, Machine.goOn, finish,
    Prog.asCoroutine, Machine.run_bind, hwrite, Machine.goOn, Prog.guarded_eq ho, Machine.run_done]

theorem run_apply_error (hr : r.isAsync = false) {e : Raised}
    (hcompute : m.run (r.obtain source) = (m', .settled (.error e))) (he : ¬ e.StopsIteration) :
    m.run (r.apply source target) = (m', .settled (.error e)) := by
  rw [apply_eq, evaluate_eq hr, Machine.run_bind, Prog.andThen, Machine.run_bind, hcompute,
    Machine.goOn]
  dsimp only
  rw [Machine.run_raise, Machine.goOn, run_finish_error r target he]

theorem run_applySync_ok (hcompute : m.run (r.obtain source) = (m', .settled (.ok v)))
    (hv : v.isAwaitable = false) :
    m.run (r.applySync source target) = m'.run (r.write target v) := by
  rw [applySync, Prog.andThen, Machine.run_bind, hcompute, Machine.goOn]
  dsimp only
  rw [hv, if_neg (by decide)]

theorem run_applySync_error {e : Raised}
    (hcompute : m.run (r.obtain source) = (m', .settled (.error e))) :
    m.run (r.applySync source target) = (m', .settled (.error e)) := by
  rw [applySync, Prog.andThen, Machine.run_bind, hcompute, Machine.goOn, Machine.run_raise]

end

end Rule

/-- Where the facts hold, the compute ends at once, in a value that is no awaitable or in a fault
that is not the one by which an iteration stops; and it leaves the facts and some records alone.
What else it does to the machine may be seen by the computes that follow. -/
def Surroundings.ReturnsAtOnce (c : Surroundings) (kept : Set ℕ) (r : Rule) (source : Value) :
    Prop :=
  ∀ m, c.holds m → ∃ m' o, m.run (r.obtain source) = (m', .settled o) ∧ c.holds m' ∧
    m.Spares kept m' ∧ (∀ v, o = .ok v → v.isAwaitable = false) ∧
    ∀ e, o = .error e → ¬ e.StopsIteration

/-- A compute that ends at once as promised returns at once. -/
theorem Surroundings.EndsIn.returnsAtOnce {c : Surroundings} {r : Rule} {source : Value}
    {promise : Promise} (h : c.EndsIn promise.Kept (r.obtain source))
    (hresult : ∀ m v, promise.Kept m (.ok v) → v.isAwaitable = false) {kept : Set ℕ}
    (hkept : kept ⊆ c.others ∅) : c.ReturnsAtOnce kept r source := by
  intro m hm
  obtain ⟨m', o, hrun, hm', hspares, ho⟩ := h m hm
  have hend := ho m' hm' (.refl m' _)
  refine ⟨m', o, hrun, hm', hspares.mono hkept, ?_, ?_⟩
  · rintro v rfl
    exact hresult m' v hend
  · rintro e rfl
    exact Promise.not_stopsIteration hend

/-! ### Turns -/

/-- Rules take turns: each computes once, and with a value it writes once, before the next one
begins. The outcomes are those of the rules. -/
inductive Turns (source target : Value) : Machine → List Rule → Machine → List Outcome → Prop
  | nil (m : Machine) : Turns source target m [] m []
  | failed {m m₁ m' : Machine} {r : Rule} {rest : List Rule} {e : Raised} {os : List Outcome}
      (hcompute : m.run (r.obtain source) = (m₁, .settled (.error e))) (he : ¬ e.StopsIteration)
      (h : Turns source target m₁ rest m' os) :
      Turns source target m (r :: rest) m' (.error e :: os)
  | refused {m m₁ m₂ m' : Machine} {r : Rule} {rest : List Rule} {v : Value} {e : Raised}
      {os : List Outcome} (hcompute : m.run (r.obtain source) = (m₁, .settled (.ok v)))
      (hv : v.isAwaitable = false) (hwrite : m₁.run (r.write target v) = (m₂, .settled (.error e)))
      (he : ¬ e.StopsIteration) (h : Turns source target m₂ rest m' os) :
      Turns source target m (r :: rest) m' (.error e :: os)
  | wrote {m m₁ m₂ m' : Machine} {r : Rule} {rest : List Rule} {v : Value} {os : List Outcome}
      (hcompute : m.run (r.obtain source) = (m₁, .settled (.ok v))) (hv : v.isAwaitable = false)
      (hwrite : m₁.run (r.write target v) = (m₂, .settled (.ok target)))
      (h : Turns source target m₂ rest m' os) :
      Turns source target m (r :: rest) m' (.ok target :: os)

namespace Turns

variable {source target : Value} {m m' : Machine} {rules : List Rule} {os : List Outcome}

/-- Field rules whose computes return at once can take turns, as long as the computes leave the
target alone: then each write lands in the target. -/
theorem exists_turns {c : Surroundings} {plan : Plan} (hplan : plan.IsSound c.base)
    (hrules : ∀ r ∈ rules, r ∈ plan.rules) (hfield : ∀ r ∈ rules, r.slot.path ≠ [])
    (hreturns : ∀ r ∈ rules, c.ReturnsAtOnce plan.region r source) (hm : c.holds m)
    (hintact : plan.Intact m) : ∃ m' os, Turns source plan.target m rules m' os := by
  induction rules generalizing m with
  | nil => exact ⟨m, [], .nil m⟩
  | cons r rest ih =>
    obtain ⟨hr, hrules⟩ := List.forall_mem_cons.mp hrules
    obtain ⟨hpath, hfield⟩ := List.forall_mem_cons.mp hfield
    obtain ⟨hreturn, hreturns⟩ := List.forall_mem_cons.mp hreturns
    obtain ⟨m₁, o, hcompute, hm₁, hspares, hv, he⟩ := hreturn m hm
    have hintact₁ := hintact.undisturbed hplan hspares
    cases o with
    | error e =>
      obtain ⟨m', os, hrest⟩ := ih hrules hfield hreturns hm₁ hintact₁
      exact ⟨m', _, .failed hcompute (he e rfl) hrest⟩
    | ok v =>
      have hland := hintact₁.landing_eq hplan hr
      obtain ⟨s, o, hwrite, hwrote, htarget, hrefused⟩ :=
        r.exists_run_write (hplan.valid r hr) hpath plan.target v m₁ c.base
          fun p hp ↦ (hplan.fresh (hplan.ref_mem hr (hland ▸ hp))).1
      rw [hland] at hwrote
      obtain ⟨m', os, hrest⟩ := ih hrules hfield hreturns (c.stable hm₁ hwrote.below)
        (hintact₁.write hr hwrote)
      cases o with
      | error e => exact ⟨m', _, .refused hcompute (hv v rfl) hwrite (hrefused e rfl) hrest⟩
      | ok w =>
        rw [htarget w rfl] at hwrite
        exact ⟨m', _, .wrote hcompute (hv v rfl) hwrite hrest⟩

/-- Rules that have not begun take turns in a round. -/
theorem advanceAll_eq (h : Turns source target m rules m' os)
    (hsync : ∀ r ∈ rules, r.isAsync = false) :
    Machine.advanceAll ((rules.map fun r ↦ r.apply source target).map .fresh) m =
      (m', os.map .settled) := by
  induction h with
  | nil m => rfl
  | failed hcompute he _ ih =>
    obtain ⟨hr, hsync⟩ := List.forall_mem_cons.mp hsync
    simp only [List.map_cons, Machine.advanceAll, Machine.advance,
      Rule.run_apply_error hr hcompute he, ih hsync]
  | refused hcompute hv hwrite he _ ih =>
    obtain ⟨hr, hsync⟩ := List.forall_mem_cons.mp hsync
    simp only [List.map_cons, Machine.advanceAll, Machine.advance,
      Rule.run_apply_ok hr hcompute hv hwrite fun _ heq ↦ Except.error.inj heq ▸ he, ih hsync]
  | wrote hcompute hv hwrite _ ih =>
    obtain ⟨hr, hsync⟩ := List.forall_mem_cons.mp hsync
    simp only [List.map_cons, Machine.advanceAll, Machine.advance,
      Rule.run_apply_ok hr hcompute hv hwrite nofun, ih hsync]

/-- Run one after the other, the rules take the same turns up to the first that fails. -/
theorem run_sequence (h : Turns source target m rules m' os)
    (hordinary : Mapper.failure? (.ok target) = none) (f : List Value → Prog) :
    (∃ m₁ r e, m.run (Prog.sequence (rules.map fun r ↦ r.applySync source target) f) =
        (m₁, .settled (.error e)) ∧ Mapper.firstFailure? (rules.zip os) = some (r, e)) ∨
      ∃ vs, m.run (Prog.sequence (rules.map fun r ↦ r.applySync source target) f) = m'.run (f vs) ∧
        Mapper.firstFailure? (rules.zip os) = none := by
  induction h generalizing f with
  | nil m => exact Or.inr ⟨[], rfl, rfl⟩
  | @failed m m₁ _ r _ e _ hcompute _ _ _ =>
    refine Or.inl ⟨m₁, r, e, ?_, rfl⟩
    rw [List.map_cons, Prog.sequence, Prog.andThen, Machine.run_bind,
      Rule.run_applySync_error hcompute, Machine.goOn, Machine.run_raise]
  | @refused m _ m₂ _ r _ _ e _ hcompute hv hwrite _ _ _ =>
    refine Or.inl ⟨m₂, r, e, ?_, rfl⟩
    rw [List.map_cons, Prog.sequence, Prog.andThen, Machine.run_bind,
      Rule.run_applySync_ok hcompute hv, hwrite, Machine.goOn, Machine.run_raise]
  | wrote hcompute hv hwrite _ ih =>
    rw [List.map_cons, Prog.sequence, Prog.andThen, Machine.run_bind,
      Rule.run_applySync_ok hcompute hv, hwrite, Machine.goOn, List.zip_cons_cons,
      Mapper.firstFailure?, hordinary]
    rcases ih fun vs ↦ f (target :: vs) with hfailed | ⟨vs, hrun, hnone⟩
    · exact Or.inl hfailed
    · exact Or.inr ⟨target :: vs, hrun, hnone⟩

end Turns

/-! ### Both mappers -/

namespace Mapper

variable {mapper : Mapper} {source target : Value} {m : Machine} {built : Store}

/-- The synchronous mapper makes its target and takes turns. -/
theorem run_transformSync (mapper : Mapper) (hsource : source ≠ .null)
    (hmade : Action.construct mapper.target m.store = (.ok target, built)) :
    m.run (mapper.transformSync source) =
      Machine.run (Prog.sequence (mapper.rules.map fun r ↦ r.applySync source target)
        fun results ↦ Prog.give (mapper.result target results)) { m with store := built } := by
  have htransform : mapper.transformSync source =
      Prog.first (Action.construct mapper.target) fun target ↦
        Prog.sequence (mapper.rules.map fun r ↦ r.applySync source target) fun results ↦
          Prog.give (mapper.result target results) := by
    cases source with
    | null => exact absurd rfl hsource
    | _ => rfl
  rw [htransform, Prog.first, Machine.run_act, Machine.act, hmade]

/-- In one round, both mappers end in the same outcome, and if it is no failure, on the same
machine. -/
theorem same_outcome_of_turns (hfields : ∀ r ∈ mapper.rules, r.kind = .field)
    (hsync : ∀ r ∈ mapper.rules, r.isAsync = false) (hsource : source ≠ .null)
    (hmade : Action.construct mapper.target m.store = (.ok target, built))
    (hordinary : failure? (.ok target) = none) {m' : Machine} {os : List Outcome}
    (hturns : Turns source target { m with store := built } mapper.rules m' os) :
    ∃ m₁ m₂ o, m.run (mapper.transformSync source) = (m₁, .settled o) ∧
      Machine.advance (mapper.gathering source target) { m with store := built } =
        (m₂, .settled o) ∧
      ((∃ e, o = .error e) ∨ o = .ok target ∧ m₁ = m' ∧ m₂ = m') := by
  obtain ⟨log, hconclude, hlog⟩ := mapper.run_conclude target os m'
  have hround : Machine.advance (mapper.gathering source target) { m with store := built } =
      ({ m' with store := { m'.store with log := log } },
        .settled (mapper.concluded target os)) := by
    have hall := hturns.advanceAll_eq hsync
    have hos := Proc.outcomes?_eq_some_iff.mpr (rfl : os.map Proc.settled = os.map Proc.settled)
    simp only [gathering, Machine.advance, hall, hos]
    exact hconclude
  rw [mapper.run_transformSync hsource hmade]
  rcases hturns.run_sequence hordinary fun results ↦ Prog.give (mapper.result target results) with
    ⟨m₁, r, e, hrun, hfirst⟩ | ⟨vs, hrun, hfirst⟩
  · have hfailed : mapper.concluded target os = .error e := by rw [concluded, hfirst]
    rw [hfailed] at hround
    exact ⟨m₁, _, .error e, hrun, hround, Or.inl ⟨e, rfl⟩⟩
  · have hdone : mapper.concluded target os = .ok target := by
      rw [concluded, hfirst, result_of_field hfields]
    rw [Machine.run_give, result_of_field hfields] at hrun
    rw [hdone, hlog hfirst] at hround
    exact ⟨m', m', .ok target, hrun, hround, Or.inr ⟨rfl, rfl, rfl⟩⟩

end Mapper

namespace Builder

theorem asynchronousKeys_eq_nil_iff {b : Builder} :
    b.asynchronousKeys = [] ↔ ∀ r ∈ b.rules, r.isAsync = false := by
  rw [asynchronousKeys, List.map_eq_nil_iff, List.filter_eq_nil_iff]
  simp only [Bool.not_eq_true]

/-- A synchronous mapper is asked for in one of three situations. -/
theorem buildSync_cases (b : Builder) :
    b.rules = [] ∧ b.buildSync = .error .noRules ∨
      b.rules ≠ [] ∧ (∀ r ∈ b.rules, r.isAsync = false) ∧ b.buildSync = .ok b.snapshot ∨
      (∃ r ∈ b.rules, r.isAsync = true) ∧
        b.buildSync = .error (.asynchronous b.asynchronousKeys) := by
  unfold buildSync
  by_cases hempty : b.rules = []
  · exact Or.inl ⟨hempty, by simp [hempty]⟩
  · have hnot : b.rules.isEmpty = false := by simpa using hempty
    rw [hnot, if_neg (by decide)]
    by_cases hkeys : b.asynchronousKeys = []
    · refine Or.inr (Or.inl ⟨hempty, asynchronousKeys_eq_nil_iff.mp hkeys, ?_⟩)
      simp [hkeys]
    · refine Or.inr (Or.inr ⟨?_, by simp [hkeys]⟩)
      by_contra hnone
      refine hkeys (asynchronousKeys_eq_nil_iff.mpr fun r hr ↦ ?_)
      by_contra hasync
      exact hnone ⟨r, hr, by simpa using hasync⟩

theorem buildSync_eq_ok_iff {b : Builder} {mapper : Mapper} : b.buildSync = .ok mapper ↔
    b.rules ≠ [] ∧ (∀ r ∈ b.rules, r.isAsync = false) ∧ mapper = b.snapshot := by
  rcases b.buildSync_cases with ⟨hempty, hbuild⟩ | ⟨hne, hsync, hbuild⟩ | ⟨⟨r, hr, hasync⟩, hbuild⟩
  · simp [hbuild, hempty]
  · rw [hbuild]
    constructor
    · rintro ⟨⟩
      exact ⟨hne, hsync, rfl⟩
    · rintro ⟨_, _, rfl⟩
      rfl
  · rw [hbuild]
    refine ⟨nofun, fun h ↦ ?_⟩
    rw [h.2.1 r hr] at hasync
    cases hasync

theorem buildSync_eq_noRules_iff {b : Builder} : b.buildSync = .error .noRules ↔ b.rules = [] := by
  rcases b.buildSync_cases with ⟨hempty, hbuild⟩ | ⟨hne, _, hbuild⟩ | ⟨⟨r, hr, _⟩, hbuild⟩
  · simp [hbuild, hempty]
  · simp [hbuild, hne]
  · simp [hbuild, List.ne_nil_of_mem hr]

theorem buildSync_eq_asynchronous_iff {b : Builder} {keys : List String} :
    b.buildSync = .error (.asynchronous keys) ↔
      (∃ r ∈ b.rules, r.isAsync = true) ∧ keys = b.asynchronousKeys := by
  rcases b.buildSync_cases with ⟨hempty, hbuild⟩ | ⟨_, hsync, hbuild⟩ | ⟨hasync, hbuild⟩
  · simp [hbuild, hempty]
  · rw [hbuild]
    refine ⟨nofun, fun h ↦ ?_⟩
    obtain ⟨r, hr, hasync⟩ := h.1
    rw [hsync r hr] at hasync
    cases hasync
  · rw [hbuild]
    constructor
    · rintro ⟨⟩
      exact ⟨hasync, rfl⟩
    · rintro ⟨_, rfl⟩
      rfl

/-- When the rules run in a round on a target that was made anew, the two mappers end in the same
outcome, after the same turns and on the same machine when no rule fails. -/
theorem Consistent.exists_round {b : Builder} (hb : b.Consistent)
    (hfields : ∀ r ∈ b.rules, r.kind = .field) (hsync : ∀ r ∈ b.rules, r.isAsync = false)
    {source : Value} (hsource : source ≠ .null) {c : Surroundings} {m : Machine} (hm : c.holds m)
    {target : Value} {built : Store} (hmakes : b.snapshot.MakesAnew m.store target built)
    (hreturns : ∀ r ∈ b.rules,
      c.ReturnsAtOnce (Set.Ico m.store.records.size built.records.size) r source) :
    ∃ m' os m₁ m₂ o, Turns source target { m with store := built } b.rules m' os ∧
      m.run (b.snapshot.transformSync source) = (m₁, .settled o) ∧
      Machine.advance (b.snapshot.gathering source target) { m with store := built } =
        (m₂, .settled o) ∧
      ((∃ e, o = .error e) ∨ o = .ok target ∧ m₁ = m' ∧ m₂ = m') := by
  let plan := b.snapshot.plan (fun _ ↦ .value fun _ _ ↦ True) m.store target built
  have hplan : plan.IsSound c.base := hb.isSound hmakes _ (c.base_le hm)
  have hbuilt : c.holds { m with store := built } := c.stable hm (hmakes.old.mono (c.base_le hm))
  have hintact : plan.Intact { m with store := built } := ⟨rfl, le_rfl, fun _ _ _ _ ↦ rfl⟩
  have hpath : ∀ r ∈ b.rules, r.slot.path ≠ [] := fun r hr ↦ hb.path_ne_nil hr (hfields r hr)
  obtain ⟨m', os, hturns⟩ :=
    Turns.exists_turns hplan (fun _ hr ↦ hr) hpath hreturns hbuilt hintact
  have hmapper : ∀ r ∈ b.snapshot.rules, r.kind = .field := hfields
  obtain ⟨m₁, m₂, o, hagree⟩ :=
    Mapper.same_outcome_of_turns hmapper hsync hsource hmakes.made hmakes.ordinary hturns
  exact ⟨m', os, m₁, m₂, o, hturns, hagree⟩

/-- The two mappers of a builder of field rules agree, when no compute has to be waited for. Both
map nothing to nothing. From any other source, on any machine where the facts hold and a target is
made anew: when the asynchronous mapper runs its rules in a round, both end in the same outcome,
after the same turns and on the same machine when no rule fails; the computes may share a state that
they change, as long as they leave the target and the facts alone. And when what the computes give
depends on the source alone, the asynchronous mapper ends as the synchronous one does in every order
of its rules. -/
theorem sync_agrees_with_async {b : Builder} (hb : b.Registered)
    (hfields : ∀ r ∈ b.rules, r.kind = .field) {mapper : Mapper} (hsync : b.buildSync = .ok mapper)
    (source : Value) :
    b.build = .ok mapper ∧
      (source = .null → ∀ m : Machine, m.run (mapper.transform source) = (m, .settled (.ok .null)) ∧
        m.run (mapper.transformSync source) = (m, .settled (.ok .null))) ∧
      (source ≠ .null → ∀ (c : Surroundings) (m : Machine) target built, c.holds m →
        mapper.MakesAnew m.store target built →
        (∀ r ∈ mapper.rules,
          c.ReturnsAtOnce (Set.Ico m.store.records.size built.records.size) r source) →
        m.run (mapper.transform source) =
            ({ m with store := built }, mapper.gathering source target) ∧
          ∃ m' os m₁ m₂ o, Turns source target { m with store := built } mapper.rules m' os ∧
            m.run (mapper.transformSync source) = (m₁, .settled o) ∧
            Machine.advance (mapper.gathering source target) { m with store := built } =
              (m₂, .settled o) ∧
            ((∃ e, o = .error e) ∨ o = .ok target ∧ m₁ = m' ∧ m₂ = m')) ∧
      (source ≠ .null → ∀ (c : Surroundings) (m : Machine) target built promise, c.holds m →
        mapper.MakesAnew m.store target built →
        (∀ r ∈ mapper.rules, c.EndsIn (promise r).Kept (r.obtain source) ∧
          ∀ m v, (promise r).Kept m (.ok v) → v.isAwaitable = false) →
        (∃ m₁ o, m.run (mapper.transformSync source) = (m₁, .settled o) ∧
            (mapper.plan promise m.store target built).Ending m₁ o) ∧
          ∀ own m' o, c.Run (Set.Ico m.store.records.size built.records.size)
              { m with store := built } (mapper.gathering source target) own m' (.settled o) →
            (mapper.plan promise m.store target built).Ending m' o) := by
  obtain ⟨hrules, hnone, rfl⟩ := buildSync_eq_ok_iff.mp hsync
  have hbuild : b.build = .ok b.snapshot := by
    rw [build, if_neg (by simpa using hrules)]
  refine ⟨hbuild, ?_, fun hsource c m target built hm hmakes hreturns ↦
    ⟨b.snapshot.run_transform hrules hsource hmakes.made,
      hb.consistent.exists_round hfields hnone hsource hm hmakes hreturns⟩,
    fun hsource c m target built promise hm hmakes hcomputes ↦ ?_⟩
  · rintro rfl m
    exact ⟨rfl, rfl⟩
  · have hkept : Set.Ico m.store.records.size built.records.size ⊆ c.others ∅ := fun ref href ↦
      ⟨(c.base_le hm).trans href.1, nofun⟩
    have hyields : ∀ r ∈ b.rules, c.Yields (promise r).Kept (r.evaluate source) := by
      intro r hr
      obtain ⟨hends, hresult⟩ := hcomputes r hr
      rw [Rule.evaluate_eq (hnone r hr)]
      exact (hends.andThen_await hresult).yields
    obtain ⟨_, _, m₁, m₂, o, _, hrun, hadvance, hsame⟩ :=
      hb.consistent.exists_round hfields hnone hsource hm hmakes fun r hr ↦
        (hcomputes r hr).1.returnsAtOnce (hcomputes r hr).2 hkept
    have hbegun : c.Run (Set.Ico m.store.records.size built.records.size) { m with store := built }
        (b.snapshot.gathering source target) _ _ _ := .refl
    obtain ⟨own, hmoves⟩ := hbegun.moves (Machine.advance_moves _ _)
    rw [hadvance] at hmoves
    have hending := (hb.consistent.ending_of_run hm hmakes hyields hmoves).1 o rfl
    refine ⟨⟨m₁, o, hrun, ?_⟩, fun own m' o' hrun' ↦
      (hb.consistent.ending_of_run hm hmakes hyields hrun').1 o' rfl⟩
    rcases hsame with ⟨e, rfl⟩ | ⟨_, rfl, rfl⟩
    · exact hending.of_error hfields
    · exact hending

end Builder

namespace Sample

/-- Rules that need no waiting: the phone is computed in some way, and the mail is the phone of the
source. -/
def plainBuilder (phone : Compute) : Builder :=
  ⟨0, "Contact", "Person",
    [⟨.field, ⟨⟨["name"]⟩, ⟨0, 0⟩⟩, .literal (.text "first")⟩,
      ⟨.field, ⟨⟨["contact", "phone"]⟩, ⟨0, 1⟩⟩, phone⟩,
      ⟨.field, ⟨⟨["contact", "mail"]⟩, ⟨0, 2⟩⟩, phoneOf⟩],
    [("target.name", ⟨["name"]⟩), ("target.contact.phone", ⟨["contact", "phone"]⟩),
      ("target.contact.mail", ⟨["contact", "mail"]⟩)]⟩

theorem registered_plainBuilder (phone : Compute) : (plainBuilder phone).Registered := by
  have hall : (Builder.empty 0 "Contact" "Person").registerAll
      [(.field, .text "name", .literal (.text "first")), (.field, .text "contact.phone", phone),
        (.field, .slot ⟨["contact", "mail"]⟩, phoneOf)] = .ok (plainBuilder phone) := rfl
  exact (Builder.Registered.empty 0 "Contact" "Person").registerAll
    (by simp [Slot.Descriptor.IsValid]; decide) hall

/-- The store with the source after a person was made. -/
def readBuilt : Store :=
  { readMachine.store with
    records := #[reader, ⟨"Contact", [("phone", .null), ("mail", .null)]⟩,
      ⟨"Person", [("name", .null), ("contact", .record 1 "Contact")]⟩] }

theorem makesAnew_read (phone : Compute) :
    (plainBuilder phone).snapshot.MakesAnew readMachine.store (.record 2 "Person") readBuilt where
  made := rfl
  old := ⟨rfl, rfl, rfl, rfl, rfl, rfl, rfl, rfl, by decide, fun ref href ↦ by
    obtain rfl : ref = 0 := Nat.lt_one_iff.mp href
    rfl⟩
  ordinary := rfl
  unaliased := by
    have hslots : (plainBuilder phone).snapshot.rules.map Rule.slot =
        [⟨["name"]⟩, ⟨["contact", "phone"]⟩, ⟨["contact", "mail"]⟩] := rfl
    rw [hslots]
    exact Store.unaliased_of_passes (by decide)

/-- The failure of the sample that computes no phone. -/
def earlyPromise : Promise := .fault fun e ↦ e.fault = .general "ValueError" [.text "early"]

/-- The phone that is read from the source. -/
def phonePromise : Promise := .value fun _ v ↦ v = .text "1"

/-- What the computes promise that need no waiting. -/
def plainPromise (phone : Promise) (r : Rule) : Promise :=
  if r.slot.path = ["name"] then .value fun _ v ↦ v = .text "first"
  else if r.slot.path = ["contact", "phone"] then phone
  else phonePromise

theorem endsIn_early : held.EndsIn earlyPromise.Kept (early.invoke (.record 0 "Contact")) :=
  Surroundings.endsIn_fail fun _ _ _ ↦ ⟨rfl, not_stopsIteration_general _ _ _ (by decide)⟩

theorem endsIn_phoneOf : held.EndsIn phonePromise.Kept (phoneOf.invoke (.record 0 "Contact")) :=
  fun m hm ↦ ⟨m, .ok (.text "1"), execWith_phoneOf (Machine.exec (Machine.depthLimit - 1)) hm, hm,
    .refl m _, fun _ _ _ ↦ rfl⟩

theorem phonePromise_result (m : Machine) (v : Value) (h : phonePromise.Kept m (.ok v)) :
    v.isAwaitable = false := by
  obtain rfl : v = .text "1" := h
  rfl

theorem plain_endsIn {phone : Compute} {promise : Promise}
    (hphone : held.EndsIn promise.Kept
      (Rule.obtain ⟨.field, ⟨⟨["contact", "phone"]⟩, ⟨0, 1⟩⟩, phone⟩ (.record 0 "Contact")))
    (hresult : ∀ m v, promise.Kept m (.ok v) → v.isAwaitable = false) :
    ∀ r ∈ (plainBuilder phone).rules,
      held.EndsIn (plainPromise promise r).Kept (r.obtain (.record 0 "Contact")) ∧
        ∀ m v, (plainPromise promise r).Kept m (.ok v) → v.isAwaitable = false := by
  intro r hr
  rcases List.mem_cons.mp hr with rfl | hr
  · refine ⟨Surroundings.endsIn_give fun _ _ ↦ rfl, fun m v h ↦ ?_⟩
    obtain rfl : v = .text "first" := h
    rfl
  rcases List.mem_cons.mp hr with rfl | hr
  · exact ⟨hphone, hresult⟩
  · rw [List.mem_singleton.mp hr]
    exact ⟨endsIn_phoneOf, phonePromise_result⟩

/-- From a source that is read, both mappers raise the failure of the second rule, in every order;
and when that reads the source as well, both end in a target with the phone of the source at both
places, after the same turns. -/
theorem plain_mappers_agree :
    (∃ m₁ m₂ e, readMachine.run ((plainBuilder early).snapshot.transformSync
          (.record 0 "Contact")) = (m₁, .settled (.error e)) ∧
        Machine.advance ((plainBuilder early).snapshot.gathering (.record 0 "Contact")
          (.record 2 "Person")) { readMachine with store := readBuilt } =
            (m₂, .settled (.error e)) ∧
        e.fault = .general "ValueError" [.text "early"]) ∧
      ∃ m, readMachine.run ((plainBuilder phoneOf).snapshot.transformSync
          (.record 0 "Contact")) = (m, .settled (.ok (.record 2 "Person"))) ∧
        Machine.advance ((plainBuilder phoneOf).snapshot.gathering (.record 0 "Contact")
          (.record 2 "Person")) { readMachine with store := readBuilt } =
            (m, .settled (.ok (.record 2 "Person"))) ∧
        m.store.field? 1 "phone" = some (.text "1") ∧
        m.store.field? 1 "mail" = some (.text "1") := by
  have hholds : held.holds readMachine := ⟨rfl, rfl⟩
  have hkept : Set.Ico readMachine.store.records.size readBuilt.records.size ⊆ held.others ∅ :=
    fun ref href ↦ ⟨href.1, nofun⟩
  have hearly := @plain_endsIn early earlyPromise endsIn_early nofun
  have hphone := @plain_endsIn phoneOf phonePromise endsIn_phoneOf phonePromise_result
  constructor
  · obtain ⟨_, _, hround, hany⟩ := @Builder.sync_agrees_with_async _ (registered_plainBuilder early)
      (by simp [plainBuilder]) (plainBuilder early).snapshot rfl (.record 0 "Contact")
    obtain ⟨-, m', os, m₁, m₂, o, -, hsync, hasync, -⟩ := hround nofun held readMachine _ _ hholds
      (makesAnew_read early) fun r hr ↦
        (hearly r hr).1.returnsAtOnce (hearly r hr).2 hkept
    obtain ⟨⟨m₁', o', hsync', hending⟩, -⟩ :=
      hany nofun held readMachine _ _ _ hholds (makesAnew_read early) hearly
    cases hsync.symm.trans hsync'
    refine ⟨m₁, m₂, ?_⟩
    cases hending with
    | failed h he =>
      cases h
      exact ⟨_, hsync, hasync, he.1⟩
    | filled h => cases h
    | whole h => cases h
    | object h => cases h
  · obtain ⟨_, _, hround, -⟩ := @Builder.sync_agrees_with_async _ (registered_plainBuilder phoneOf)
      (by simp [plainBuilder]) (plainBuilder phoneOf).snapshot rfl (.record 0 "Contact")
    obtain ⟨-, m', os, m₁, m₂, o, -, hsync, hasync, hagree⟩ := hround nofun held readMachine _ _
      hholds (makesAnew_read phoneOf) fun r hr ↦
        (hphone r hr).1.returnsAtOnce (hphone r hr).2 hkept
    rcases hagree with ⟨e, rfl⟩ | ⟨rfl, rfl, rfl⟩
    · cases hsync
    · cases hsync
      exact ⟨_, rfl, hasync, rfl, rfl⟩

end Sample

end Recast
