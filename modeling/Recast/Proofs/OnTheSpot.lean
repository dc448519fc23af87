import Recast.Proofs.Completion

/-!
Synchronous calls among others. A synchronous mapper ends in its first move. What it gives is told
by what is expected of its computes, for field rules and for a rule for the whole target alike
(`Builder.Consistent.endsIn_transformSync_each`), and a call does no more to what calls have in
common than its computes do (`Builder.Consistent.exists_run_sync`). Two calls that give what is told
end alike (`Builder.AnswersSync.alike`).
-/

set_option autoImplicit false

namespace Recast

/-! ### A rule for the whole target -/

/-- A write of the whole target is expected to come to what the compute gives. -/
theorem Pattern.kept_whole {pattern : Pattern} {slot : Slot} (hpath : slot.path = [])
    {e : Expectation} {m : Machine} {o : Outcome} (h : e.promise.Kept m o) :
    (pattern.expectation [(slot, e)]).promise.Kept m o := by
  have hrefusal : pattern.refusal? slot = none := by
    refine Store.refusal?_eq_none_iff.mpr ⟨none, ?_⟩
    rw [Store.landing, hpath]
    rfl
  cases e with
  | fault is =>
    obtain ⟨e, rfl, he, hstops⟩ := Expectation.kept_fault_iff.mp h
    exact ⟨⟨he, hstops⟩, hstops⟩
  | value face =>
    have hnone : [(slot, Expectation.value face)].findSome? pattern.failureOf? = none := by
      simp [Pattern.failureOf?, hrefusal]
    rw [Pattern.expectation, hnone, Builder.overlay_whole hpath]
    exact h

/-- Without waiting, a rule for the whole target ends as its compute does, and changes no more than
the note that its setter is in use. -/
theorem Rule.exists_applySync_whole {r : Rule} (hpath : r.slot.path = []) {source : Value}
    {m m₁ : Machine} {o : Outcome} (hcompute : m.run (r.obtainSync source) = (m₁, .settled o))
    (target : Value) :
    ∃ s, m.run (r.applySync source target) = ({ m₁ with store := s }, .settled o) ∧
      s.records = m₁.store.records ∧ ∀ base, m₁.store.SameBelow base s := by
  rw [run_applySync hcompute]
  cases o with
  | error e => exact ⟨m₁.store, rfl, rfl, fun base ↦ .refl base _⟩
  | ok v =>
    refine ⟨r.binder.compiled m₁.store, ?_, r.binder.records_compiled _,
      fun base ↦ r.binder.sameBelow_compiled base _⟩
    change m₁.run (r.write target v) = _
    rw [write, Machine.run_ofAction, Machine.act, r.binder_write, Slot.write, hpath]
    rfl

/-- A synchronous mapper with a rule for the whole target ends as the rule does. -/
theorem Mapper.run_transformSync_whole {mapper : Mapper} {r : Rule} (hrules : mapper.rules = [r])
    (hkind : r.kind = .whole) {source target : Value} (hsource : source ≠ .null) {m m' : Machine}
    {built : Store} (hmade : Action.construct mapper.target m.store = (.ok target, built))
    {o : Outcome}
    (hrun : Machine.run (r.applySync source target) { m with store := built } = (m', .settled o)) :
    m.run (mapper.transformSync source) = (m', .settled o) := by
  have hwhole : mapper.isWhole = true := by simp [isWhole, hrules, hkind]
  rw [mapper.run_transformSync hsource hmade, hrules, List.map_singleton, Prog.sequence,
    Prog.andThen, Machine.run_bind, hrun, Machine.goOn]
  cases o with
  | error e => rfl
  | ok v =>
    simp only [Prog.sequence, result, hwhole, if_true]
    rfl

namespace Builder.Consistent

variable {b : Builder} {pattern : Pattern} {expect : Rule → Expectation} {source : Value}
  {c : Surroundings}

/-- A synchronous mapper with a rule for the whole target ends at once in what is expected of its
compute. -/
theorem endsIn_transformSync_whole (hb : b.Consistent) {r : Rule} (hrules : b.rules = [r])
    (hkind : r.kind = .whole) (hsource : source ≠ .null) (hmakes : c.Makes b.target pattern)
    (hcompute : c.EndsIn (expect r).promise.Kept (r.obtainSync source)) :
    c.EndsIn (pattern.expectation (Plan.writes expect b.rules)).promise.Kept
      (b.snapshot.transformSync source) := by
  intro m hm
  have hpath : r.slot.path = [] := (hb.kind r (hrules ▸ List.mem_singleton_self r)).mp hkind
  obtain ⟨_, target, built, hmade⟩ := hmakes m hm
  obtain ⟨m₁, o, hrun, hm₁, hspares, hkept⟩ := hcompute _ (hmade.holds hm)
  obtain ⟨s, happly, hrecords, hbelow⟩ := Rule.exists_applySync_whole hpath hrun target
  have hmade₁ : Machine.made { m with store := built } m₁ ⊆
      m.made { m₁ with store := s } := by
    rw [Machine.made, Machine.made, hrecords]
    exact Set.Ico_subset_Ico_left hmade.old.size_le
  have hwritten : ∀ kept, m₁.Spares kept { m₁ with store := s } := fun kept ↦
    ⟨(hbelow 0).types, (hbelow 0).size_le, fun ref _ _ ↦ by rw [hrecords]⟩
  have hothers : m.Spares (c.others ∅) m₁ :=
    Surroundings.spares_trans (hmade.spares _)
      (hspares.mono (c.others_mono (Set.empty_subset _)))
  refine ⟨{ m₁ with store := s }, o, ?_, c.stable hm₁ (hbelow c.base),
    hothers.trans (hwritten _), fun m'' hm'' hspares'' ↦ ?_⟩
  · exact Mapper.run_transformSync_whole hrules hkind hsource hmade.made happly
  · have ho := hkept m'' hm'' ((hwritten _).trans (hspares''.mono hmade₁))
    rw [Plan.writes, hrules, List.map_singleton]
    exact Pattern.kept_whole hpath ho

/-- A synchronous mapper ends at once in what is expected of it, whatever its rules are for. -/
theorem endsIn_transformSync_each (hb : b.Consistent) (hsource : source ≠ .null)
    (hmakes : c.Makes b.target pattern)
    (hcomputes : ∀ r ∈ b.rules, c.EndsIn (expect r).promise.Kept (r.obtainSync source)) :
    c.EndsIn (pattern.expectation (Plan.writes expect b.rules)).promise.Kept
      (b.snapshot.transformSync source) := by
  rcases hb.all_field_or_alone with hfields | ⟨r, hrules, hkind⟩
  · exact hb.endsIn_transformSync hfields hsource hmakes hcomputes
  · exact hb.endsIn_transformSync_whole hrules hkind hsource hmakes
      (hcomputes r (hrules ▸ List.mem_singleton_self r))

end Builder.Consistent

/-! ### Among calls that share awaitables -/

/-- What may be relied on from some moment on: what calls have in common holds, and what was handed
over at that moment stays so. -/
def Commons.since (c : Commons) (m₀ : Machine) : Surroundings where
  base := c.ground.base
  holds m := c.Holds m ∧ c.Keeps m₀ m
  base_le h := c.ground.base_le h.1.ground
  stable h hbelow := ⟨(h.1.sameBelow hbelow).1, h.2.trans (h.1.sameBelow hbelow).2⟩

theorem Commons.EndsIn.since {c : Commons} {result : Machine → Outcome → Prop} {p : Prog}
    (h : c.EndsIn result p) (m₀ : Machine) : (c.since m₀).EndsIn result p := by
  intro m hm
  obtain ⟨m', o, hrun, hpermits, hresult⟩ := h m hm.1
  exact ⟨m', o, hrun, ⟨hpermits.holds, hm.2.trans hpermits.keeps⟩, hpermits.spares,
    fun m'' hm'' hspares ↦ hresult m'' hm''.1 hspares⟩

namespace Builder

variable {b : Builder} {pattern : Pattern} {expect : Rule → Expectation} {source : Value}
  {m m' : Machine} {o o' : Outcome}

/-- What a synchronous call gives: nothing for nothing, else what is expected of the mapper. -/
def AnswersSync (b : Builder) (pattern : Pattern) (expect : Rule → Expectation) (source : Value)
    (m : Machine) (o : Outcome) : Prop :=
  source = .null ∧ o = .ok .null ∨
    source ≠ .null ∧ (pattern.expectation (Plan.writes expect b.rules)).promise.Kept m o

/-- Synchronous calls end alike, wherever they are made. -/
theorem AnswersSync.alike (h : b.AnswersSync pattern expect source m o)
    (h' : b.AnswersSync pattern expect source m' o') : b.Alike pattern expect m m' o o' := by
  rcases h with ⟨hnull, rfl⟩ | ⟨hsource, hkept⟩
  · rcases h' with ⟨_, rfl⟩ | ⟨hsource, _⟩
    · exact .values (Store.look_eq_of_access (fun _ a ↦ by cases a <;> rfl) _ _)
    · exact absurd hnull hsource
  · rcases h' with ⟨hnull, _⟩ | ⟨_, hkept'⟩
    · exact absurd hnull hsource
    · rw [Pattern.expectation] at hkept hkept'
      cases hverdict : (Plan.writes expect b.rules).findSome? pattern.failureOf? with
      | none =>
        rw [hverdict] at hkept hkept'
        obtain ⟨v, rfl, hlook⟩ := Expectation.kept_value_iff.mp hkept
        obtain ⟨v', rfl, hlook'⟩ := Expectation.kept_value_iff.mp hkept'
        exact .values (hlook.trans hlook'.symm)
      | some is =>
        rw [hverdict] at hkept hkept'
        obtain ⟨e, rfl, he, _⟩ := Expectation.kept_fault_iff.mp hkept
        obtain ⟨e', rfl, he', _⟩ := Expectation.kept_fault_iff.mp hkept'
        exact .faults hverdict he he'

/-- A synchronous call ends at once, does others no harm, and gives what is told of it. -/
theorem Consistent.exists_run_sync {c : Commons} (hb : b.Consistent)
    (hmakes : c.ground.Makes b.target pattern)
    (hcomputes : ∀ r ∈ b.rules, c.EndsIn (expect r).promise.Kept (r.obtainSync source))
    (hm : c.Holds m) : ∃ m' o, m.run (b.snapshot.transformSync source) = (m', .settled o) ∧
      c.Permits ∅ m m' ∧ b.AnswersSync pattern expect source m' o := by
  by_cases hsource : source = .null
  · subst hsource
    exact ⟨m, _, rfl, .refl hm ∅, Or.inl ⟨rfl, rfl⟩⟩
  · have hends := hb.endsIn_transformSync_each (c := c.since m) hsource
      (fun m₁ hm₁ ↦ hmakes m₁ hm₁.1.ground) fun r hr ↦ (hcomputes r hr).since m
    obtain ⟨m', o, hrun, hm', hspares, hkept⟩ := hends m ⟨hm, .refl c m⟩
    exact ⟨m', o, hrun, ⟨hm'.1, hm'.2, hspares⟩, Or.inr ⟨hsource, hkept m' hm' (.refl _ _)⟩⟩

end Builder

end Recast
