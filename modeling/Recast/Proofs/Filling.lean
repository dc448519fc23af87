import Recast.Proofs.Continuation
import Recast.Proofs.Plan
import Mathlib.Data.List.Nodup

/-!
Filling a target by rules that run side by side. A rule that runs is its compute, followed by its
write (`Rule.apply_eq`). While the rules of a sound plan run in any order, each of them computes,
has failed as the plan says, or has its value in place (`Plan.Underway`); a move of one rule keeps
this (`Plan.Underway.move`), because it leaves alone the records of the other computes and what the
other rules read and write. When all have ended, the mapper ends as the plan says
(`Plan.Underway.ending`).
-/

set_option autoImplicit false

namespace Recast

/-! ### Writing a value -/

/-- Of the attributes of records, at most the one where a write lands has changed, and everything
else that lies below a position or is not merely noted is as before. -/
structure Store.Wrote (base : ℕ) (landing : Except Refusal (Option Spot)) (s s' : Store) :
    Prop where
  below : s.SameBelow base s'
  size_eq : s'.records.size = s.records.size
  records : ∀ ref, (∀ p, landing = .ok (some p) → ref ≠ p.ref) → s'.records[ref]? = s.records[ref]?
  fields : ∀ ref name, (∀ p, landing = .ok (some p) → (ref, name) ≠ (p.ref, p.name)) →
    s'.field? ref name = s.field? ref name

namespace Store

theorem wrote_of_records_eq {base : ℕ} {landing : Except Refusal (Option Spot)} {s s' : Store}
    (hbelow : s.SameBelow base s') (h : s'.records = s.records) : Wrote base landing s s' where
  below := hbelow
  size_eq := by rw [h]
  records ref _ := by rw [h]
  fields ref name _ := by rw [field?, field?, h]

theorem Wrote.put {base : ℕ} {p : Spot} {s s' : Store} (h : Wrote base (.ok (some p)) s s')
    (hbase : base ≤ p.ref) (v : Value) : Wrote base (.ok (some p)) s (s'.put p v) where
  below := h.below.trans (sameBelow_put hbase s' v)
  size_eq := by rw [size_records_put, h.size_eq]
  records ref href := (records_put_of_ne s' p v (href p rfl)).trans (h.records ref href)
  fields ref name href := (field?_put_of_ne s' p v (href p rfl)).trans (h.fields ref name href)

end Store

namespace Binder

/-- The store after the setter was noted to be in use. -/
def compiled (b : Binder) (s : Store) : Store := (b.compile s).2

theorem records_compiled (b : Binder) (s : Store) : (b.compiled s).records = s.records := by
  simp only [compiled, compile, Action.change]
  split_ifs <;> rfl

theorem sameBelow_compiled (b : Binder) (base : ℕ) (s : Store) :
    s.SameBelow base (b.compiled s) := by
  simp only [compiled, compile, Action.change]
  split_ifs <;> exact ⟨rfl, rfl, rfl, rfl, rfl, rfl, rfl, rfl, le_rfl, fun _ _ ↦ rfl⟩

theorem landing_compiled (b : Binder) (s : Store) (target : Value) (slot : Slot) :
    (b.compiled s).landing target slot = s.landing target slot :=
  Store.landing_congr (b.sameBelow_compiled 0 s).types fun _ _ _ _ ↦ by
    rw [Store.field?, Store.field?, b.records_compiled]

end Binder

namespace Rule

/-- A rule notes its setter to be in use, and writes. -/
theorem binder_write (r : Rule) (target v : Value) (s : Store) :
    r.binder.write target v s = r.slot.write target v (r.binder.compiled s) := rfl

/-- What a rule does with the outcome of its compute. -/
def finish (r : Rule) (target : Value) (o : Outcome) : Prog :=
  Prog.asCoroutine <|
    match o with
    | .ok v => r.write target v
    | .error e => Prog.raise e

/-- A rule that runs is its compute, followed by its write. -/
theorem apply_eq (r : Rule) (source target : Value) :
    r.apply source target = (r.evaluate source).bind (r.finish target) := by
  rw [apply, Prog.asCoroutine, Prog.andThen, Prog.bind_assoc]
  rfl

theorem run_finish_error (r : Rule) (target : Value) {e : Raised} (he : ¬ e.StopsIteration)
    (m : Machine) : m.run (r.finish target (.error e)) = (m, .settled (.error e)) := by
  have hout : Prog.guarded (.error e) = .done (.error e) :=
    Prog.guarded_eq fun e' heq ↦ Except.error.inj heq ▸ he
  rw [finish, Prog.asCoroutine, Machine.run_bind, Machine.run_raise, Machine.goOn, hout,
    Machine.run_done]

theorem not_stopsIteration_toFault (refusal : Refusal) (slot : Slot) (id : ℕ) :
    ¬ (Raised.mk id (refusal.toFault slot)).StopsIteration := by
  rintro ⟨args, hargs⟩
  cases refusal <;> cases hargs

/-- Completing a rule takes no waiting. -/
theorem exists_run_finish (r : Rule) (target : Value) (o : Outcome) (m : Machine) :
    ∃ m' result, m.run (r.finish target o) = (m', .settled result) := by
  cases o with
  | error e =>
    obtain ⟨_, result, hrun, _⟩ := m.run_guarded (.error e)
    exact ⟨_, result, hrun⟩
  | ok v =>
    obtain ⟨_, result, hrun, _⟩ :=
      (m.act (r.binder.write target v)).2.run_guarded (m.act (r.binder.write target v)).1
    exact ⟨_, result, hrun⟩

/-- With a value, a rule sets the attribute at its slot, or it fails; a rule for the whole target
gives the value itself. -/
theorem run_finish_ok (r : Rule) (hvalid : r.slot.IsValid) (target v : Value) (m : Machine)
    (base : ℕ) (hbase : ∀ p, m.store.landing target r.slot = .ok (some p) → base ≤ p.ref) :
    ∃ s o, m.run (r.finish target (.ok v)) = ({ m with store := s }, .settled o) ∧
      m.store.Wrote base (m.store.landing target r.slot) s ∧
      match m.store.landing target r.slot with
      | .error refusal => ∃ id, o = .error ⟨id, refusal.toFault r.slot⟩
      | .ok none => o = .ok v
      | .ok (some p) =>
        o = .ok target ∧ (p.ref < m.store.records.size → s.field? p.ref p.name = some v) := by
  have hrecords := r.binder.records_compiled m.store
  have hcompiled := r.binder.sameBelow_compiled base m.store
  rw [finish, Prog.asCoroutine, Machine.run_bind, write, Machine.run_ofAction, Machine.goOn,
    Machine.act, r.binder_write, Slot.write_eq hvalid, r.binder.landing_compiled]
  cases hland : m.store.landing target r.slot with
  | error refusal =>
    have hout := Prog.guarded_eq (o := .error ⟨(r.binder.compiled m.store).nextId,
      refusal.toFault r.slot⟩) fun e heq ↦ Except.error.inj heq ▸ not_stopsIteration_toFault _ _ _
    refine ⟨_, _, congrArg (Machine.run · _) hout, ?_, _, rfl⟩
    exact Store.wrote_of_records_eq (hcompiled.trans (Store.sameBelow_count base _)) hrecords
  | ok place =>
    cases place with
    | none => exact ⟨_, _, rfl, Store.wrote_of_records_eq hcompiled hrecords, rfl⟩
    | some p =>
      have hbelow : m.store.Wrote base (.ok (some p)) (r.binder.compiled m.store) :=
        Store.wrote_of_records_eq hcompiled hrecords
      refine ⟨_, _, rfl, hbelow.put (hbase p hland) v, rfl, ?_⟩
      intro href
      exact Store.field?_put_self _ p v (hrecords.symm ▸ href)

end Rule

namespace Plan

/-! ### Rules under way -/

section Underway

variable {c : Surroundings} {plan : Plan} {good : Rule → Proc → Set ℕ → Machine → Prop}

/-- How far a rule has come: it computes, it has failed as the plan says, or its value is where it
belongs. -/
inductive Stage (plan : Plan) (good : Rule → Proc → Set ℕ → Machine → Prop) (r : Rule)
    (own : Set ℕ) (m : Machine) : Proc → Prop
  | computing {q : Proc} (h : good r q own m) :
    Stage plan good r own m (q.bind (r.finish plan.target))
  | failed {is : Raised → Prop} {e : Raised} (h : plan.failureOf? r = some is) (he : is e) :
    Stage plan good r own m (.settled (.error e))
  | whole {v : Value} (h : good r (.settled (.ok v)) own m)
      (hland : plan.built.landing plan.target r.slot = .ok none) :
    Stage plan good r own m (.settled (.ok v))
  | written {v : Value} {p : Spot} (h : good r (.settled (.ok v)) own m)
      (hland : plan.built.landing plan.target r.slot = .ok (some p))
      (hfield : m.store.field? p.ref p.name = some v) :
    Stage plan good r own m (.settled (.ok plan.target))

/-- A rule stays where it is while its own records and the attribute that it writes do. -/
theorem Stage.undisturbed {r : Rule} (hgood : c.Discipline (plan.promise r).Kept (good r))
    {own : Set ℕ} {m m' : Machine} {p : Proc} (h : Stage plan good r own m p) (hm : c.holds m)
    (hm' : c.holds m') (hspares : m.Spares own m')
    (hspot : ∀ q, plan.built.landing plan.target r.slot = .ok (some q) →
      m'.store.field? q.ref q.name = m.store.field? q.ref q.name) :
    Stage plan good r own m' p := by
  cases h with
  | computing h => exact .computing (hgood.undisturbed h hm hm' hspares)
  | failed h he => exact .failed h he
  | whole h hland => exact .whole (hgood.undisturbed h hm hm' hspares) hland
  | written h hland hfield =>
    exact .written (hgood.undisturbed h hm hm' hspares) hland ((hspot _ hland).trans hfield)

/-- What holds of a rule whose part was set, and of the other rules with their parts, holds of all
rules. -/
theorem forall_set {rules : List Rule} {parts : List Proc} {holds : ℕ → Rule → Proc → Prop} {i : ℕ}
    {r : Rule} (hi : rules[i]? = some r) {q : Proc} (hq : holds i r q)
    (hrest : ∀ j s p, j ≠ i → rules[j]? = some s → parts[j]? = some p → holds j s p) :
    ∀ j s p, rules[j]? = some s → (parts.set i q)[j]? = some p → holds j s p := by
  intro j s p hs hp
  by_cases hj : j = i
  · subst hj
    have hlt : j < parts.length := by
      rw [← List.length_set]
      exact (List.getElem?_eq_some_iff.mp hp).1
    rw [List.getElem?_set_self hlt, Option.some.injEq] at hp
    rw [hi, Option.some.injEq] at hs
    subst hs hp
    exact hq
  · rw [List.getElem?_set_ne (Ne.symm hj)] at hp
    exact hrest j s p hj hs hp

/-- Of a target nothing has changed but what rules write. -/
structure Intact (plan : Plan) (m : Machine) : Prop where
  types_eq : m.store.types = plan.built.types
  size_le : plan.built.records.size ≤ m.store.records.size
  fields : ∀ ref ∈ plan.region, ∀ name, ¬ plan.IsSpot ref name →
    m.store.field? ref name = plan.built.field? ref name

namespace Intact

variable {base : ℕ} {m m' : Machine} {r : Rule}

/-- A write lands where it would have landed at the start. -/
theorem landing_eq (h : Intact plan m) (hplan : plan.IsSound base) (hr : r ∈ plan.rules) :
    m.store.landing plan.target r.slot = plan.built.landing plan.target r.slot := by
  refine Store.landing_congr h.types_eq ?_
  intro before ref name hvisit
  have hmem := hplan.unaliased.mem r.slot (List.mem_map_of_mem hr) before ref name
    (hvisit.of_prefix (List.dropLast_prefix _))
  exact h.fields ref hmem name (hplan.not_isSpot_of_visits hr hvisit)

theorem ref_lt (h : Intact plan m) (hplan : plan.IsSound base) {ref : ℕ}
    (href : ref ∈ plan.region) : ref < m.store.records.size :=
  (hplan.fresh href).2.trans_le h.size_le

theorem undisturbed (h : Intact plan m) (hplan : plan.IsSound base)
    (hspares : m.Spares plan.region m') : Intact plan m' where
  types_eq := hspares.types.trans h.types_eq
  size_le := h.size_le.trans hspares.size_le
  fields ref href name hspot :=
    (hspares.field? href (h.ref_lt hplan href) name).trans (h.fields ref href name hspot)

theorem write (h : Intact plan m) (hr : r ∈ plan.rules) {s : Store}
    (hwrote : m.store.Wrote base (plan.built.landing plan.target r.slot) s) :
    Intact plan { m with store := s } where
  types_eq := hwrote.below.types.trans h.types_eq
  size_le := h.size_le.trans hwrote.size_eq.ge
  fields ref href name hspot := by
    have hother : ∀ p, plan.built.landing plan.target r.slot = .ok (some p) →
        (ref, name) ≠ (p.ref, p.name) := by
      intro p hp heq
      obtain ⟨hrefEq, hname⟩ := Prod.mk.inj heq
      exact hspot ⟨r, hr, p, hp, hrefEq.symm, hname.symm⟩
    exact (hwrote.fields ref name hother).trans (h.fields ref href name hspot)

end Intact

/-- The records of a target that rules fill side by side. Each rule owns the records that its
compute has made; these are apart from each other and from the target, which belongs to no compute,
and of the target nothing has changed but what rules write. -/
structure Layout (c : Surroundings) (plan : Plan) (own : Set ℕ) (owns : ℕ → Set ℕ) (m : Machine) :
    Prop extends Intact plan m where
  apart : ∀ i j, i ≠ j → Disjoint (owns i) (owns j)
  apart_region : ∀ i, Disjoint (owns i) plan.region
  owns_subset : ∀ i, owns i ⊆ own
  owns_bounds : ∀ i, owns i ⊆ Set.Ico c.base m.store.records.size
  region_subset : plan.region ⊆ own

namespace Layout

variable {own : Set ℕ} {owns : ℕ → Set ℕ} {m m' : Machine}

/-- The target belongs to no compute. -/
theorem mem_others (h : Layout c plan own owns m) (hplan : plan.IsSound c.base) (i : ℕ) {ref : ℕ}
    (href : ref ∈ plan.region) : ref ∈ c.others (owns i) :=
  ⟨(hplan.fresh href).1, fun hmem ↦ (h.apart_region i).le_bot ⟨hmem, href⟩⟩

/-- What one compute has made belongs to someone else for another. -/
theorem owns_subset_others (h : Layout c plan own owns m) {i j : ℕ} (hij : j ≠ i) :
    owns j ⊆ c.others (owns i) :=
  fun _ href ↦ ⟨(h.owns_bounds j href).1, fun hmem ↦ (h.apart j i hij).le_bot ⟨href, hmem⟩⟩

/-- The attribute that a rule writes stays as it is where the target does. -/
theorem field?_spot (h : Layout c plan own owns m) (hplan : plan.IsSound c.base) {kept : Set ℕ}
    (hspares : m.Spares kept m') (hkept : plan.region ⊆ kept) {r : Rule} (hr : r ∈ plan.rules)
    {p : Spot} (hp : plan.built.landing plan.target r.slot = .ok (some p)) :
    m'.store.field? p.ref p.name = m.store.field? p.ref p.name :=
  hspares.field? (hkept (hplan.ref_mem hr hp)) (h.ref_lt hplan (hplan.ref_mem hr hp)) p.name

theorem undisturbed (h : Layout c plan own owns m) (hplan : plan.IsSound c.base)
    (hspares : m.Spares own m') : Layout c plan own owns m' where
  toIntact := h.toIntact.undisturbed hplan (hspares.mono h.region_subset)
  apart := h.apart
  apart_region := h.apart_region
  owns_subset := h.owns_subset
  owns_bounds i := (h.owns_bounds i).trans (Set.Ico_subset_Ico_right hspares.size_le)
  region_subset := h.region_subset

/-- New records belong to no compute yet. -/
theorem disjoint_made (h : Layout c plan own owns m) (m' : Machine) (i : ℕ) :
    Disjoint (owns i) (m.made m') := by
  refine Set.disjoint_left.mpr ?_
  intro ref href hnew
  have hold : ref < m.store.records.size := (h.owns_bounds i href).2
  exact absurd hnew.1 (by omega)

/-- A compute goes on: it leaves alone the records of the others and the target. -/
theorem compute (h : Layout c plan own owns m) (hplan : plan.IsSound c.base)
    (hbase : c.base ≤ m.store.records.size) {i : ℕ} (hspares : m.Spares (c.others (owns i)) m') :
    Layout c plan (own ∪ m.made m') (Function.update owns i (owns i ∪ m.made m')) m' where
  toIntact := h.toIntact.undisturbed hplan (hspares.mono fun _ href ↦ h.mem_others hplan i href)
  apart j k hjk := by
    by_cases hj : j = i
    · subst hj
      rw [Function.update_self, Function.update_of_ne (Ne.symm hjk), Set.disjoint_union_left]
      exact ⟨h.apart j k hjk, (h.disjoint_made m' k).symm⟩
    · rw [Function.update_of_ne hj]
      by_cases hk : k = i
      · subst hk
        rw [Function.update_self, Set.disjoint_union_right]
        exact ⟨h.apart j k hjk, h.disjoint_made m' j⟩
      · rw [Function.update_of_ne hk]
        exact h.apart j k hjk
  apart_region := by
    have hnew : Disjoint (m.made m') plan.region := by
      refine Set.disjoint_left.mpr ?_
      intro ref hnew href
      exact absurd (h.ref_lt hplan href) (not_lt.mpr hnew.1)
    refine (Function.forall_update_iff owns fun _ refs ↦ Disjoint refs plan.region).mpr ⟨?_, ?_⟩
    · exact Set.disjoint_union_left.mpr ⟨h.apart_region i, hnew⟩
    · intro j _
      exact h.apart_region j
  owns_subset := by
    refine (Function.forall_update_iff owns fun _ refs ↦ refs ⊆ own ∪ m.made m').mpr ⟨?_, ?_⟩
    · exact Set.union_subset_union_left _ (h.owns_subset i)
    · intro j _
      exact (h.owns_subset j).trans Set.subset_union_left
  owns_bounds := by
    have hold : ∀ j, owns j ⊆ Set.Ico c.base m'.store.records.size := fun j ↦
      (h.owns_bounds j).trans (Set.Ico_subset_Ico_right hspares.size_le)
    refine (Function.forall_update_iff owns
      fun _ refs ↦ refs ⊆ Set.Ico c.base m'.store.records.size).mpr ⟨?_, ?_⟩
    · exact Set.union_subset (hold i) (Set.Ico_subset_Ico_left hbase)
    · intro j _
      exact hold j
  region_subset := h.region_subset.trans Set.subset_union_left

/-- A rule writes: at most the attribute at its slot is another, which is part of the target. -/
theorem write (h : Layout c plan own owns m) (hplan : plan.IsSound c.base) {r : Rule}
    (hr : r ∈ plan.rules) {s : Store}
    (hwrote : m.store.Wrote c.base (plan.built.landing plan.target r.slot) s) :
    (∀ kept, Disjoint kept plan.region → m.Spares kept { m with store := s }) ∧
      Layout c plan own owns { m with store := s } where
  left _ hkept := ⟨hwrote.below.types, hwrote.size_eq.ge, fun ref href _ ↦
    hwrote.records ref fun _ hp heq ↦
      Set.disjoint_left.mp hkept href (heq ▸ hplan.ref_mem hr hp)⟩
  right :=
    { toIntact := h.toIntact.write hr hwrote
      apart := h.apart
      apart_region := h.apart_region
      owns_subset := h.owns_subset
      owns_bounds j := (h.owns_bounds j).trans (Set.Ico_subset_Ico_right hwrote.size_eq.ge)
      region_subset := h.region_subset }

/-- The target belongs to nobody else. -/
theorem disjoint_others (h : Layout c plan own owns m) : Disjoint (c.others own) plan.region :=
  Set.disjoint_left.mpr fun _ hother href ↦ hother.2 (h.region_subset href)

end Layout

/-- The attribute of another rule is another one, so that a write leaves it alone. -/
theorem IsSound.field?_of_wrote {base : ℕ} (hplan : plan.IsSound base) {i j : ℕ} {r t : Rule}
    (hij : j ≠ i) (hr : plan.rules[i]? = some r) (ht : plan.rules[j]? = some t) {s s' : Store}
    (hwrote : s.Wrote base (plan.built.landing plan.target r.slot) s') {p : Spot}
    (hp : plan.built.landing plan.target t.slot = .ok (some p)) :
    s'.field? p.ref p.name = s.field? p.ref p.name := by
  refine hwrote.fields p.ref p.name ?_
  intro p' hp' heq
  apply hij
  obtain ⟨href, hname⟩ := Prod.mk.inj heq
  have hrule : t = r := hplan.spot_unique (List.mem_of_getElem? ht) (List.mem_of_getElem? hr) hp hp'
    href hname
  obtain ⟨hlt, hget⟩ := List.getElem?_eq_some_iff.mp ht
  obtain ⟨hlt', hget'⟩ := List.getElem?_eq_some_iff.mp hr
  exact (List.Nodup.getElem_inj_iff hplan.nodup).mp (by rw [hget, hget', hrule])

/-- The rules of a plan run side by side. Each is somewhere on its way and owns the records that its
compute has made; these are apart from each other and from the target, which belongs to no compute,
and of the target nothing has changed but what rules write. -/
structure Underway (c : Surroundings) (plan : Plan) (good : Rule → Proc → Set ℕ → Machine → Prop)
    (own : Set ℕ) (owns : ℕ → Set ℕ) (m : Machine) (parts : List Proc) : Prop where
  types_eq : m.store.types = plan.built.types
  size_le : plan.built.records.size ≤ m.store.records.size
  length_eq : parts.length = plan.rules.length
  stage : ∀ i r p, plan.rules[i]? = some r → parts[i]? = some p → Stage plan good r (owns i) m p
  apart : ∀ i j, i ≠ j → Disjoint (owns i) (owns j)
  apart_region : ∀ i, Disjoint (owns i) plan.region
  owns_subset : ∀ i, owns i ⊆ own
  owns_bounds : ∀ i, owns i ⊆ Set.Ico c.base m.store.records.size
  region_subset : plan.region ⊆ own
  fields : ∀ ref ∈ plan.region, ∀ name, ¬ plan.IsSpot ref name →
    m.store.field? ref name = plan.built.field? ref name

theorem Layout.underway {own : Set ℕ} {owns : ℕ → Set ℕ} {m : Machine} {parts : List Proc}
    (h : Layout c plan own owns m) (hlength : parts.length = plan.rules.length)
    (hstage : ∀ i r p, plan.rules[i]? = some r → parts[i]? = some p →
      Stage plan good r (owns i) m p) : Underway c plan good own owns m parts :=
  { h with length_eq := hlength, stage := hstage }

namespace Underway

variable {own : Set ℕ} {owns : ℕ → Set ℕ} {m m' : Machine} {parts : List Proc}

theorem layout (h : Underway c plan good own owns m parts) : Layout c plan own owns m := { h with }

/-- A write lands where it would have landed at the start. -/
theorem landing_eq (h : Underway c plan good own owns m parts) (hplan : plan.IsSound c.base)
    {r : Rule} (hr : r ∈ plan.rules) :
    m.store.landing plan.target r.slot = plan.built.landing plan.target r.slot :=
  h.layout.landing_eq hplan hr

/-- All rules stay where they are while the records of their computes and the target do. -/
theorem undisturbed (h : Underway c plan good own owns m parts) (hplan : plan.IsSound c.base)
    (hgood : ∀ r ∈ plan.rules, c.Discipline (plan.promise r).Kept (good r)) (hm : c.holds m)
    (hm' : c.holds m') (hspares : m.Spares own m') : Underway c plan good own owns m' parts := by
  refine (h.layout.undisturbed hplan hspares).underway h.length_eq ?_
  intro i r p hr hp
  have hmem : r ∈ plan.rules := List.mem_of_getElem? hr
  exact (h.stage i r p hr hp).undisturbed (hgood r hmem) hm hm' (hspares.mono (h.owns_subset i))
    fun q hq ↦ h.layout.field?_spot hplan hspares h.region_subset hmem hq

/-- A compute goes on: it leaves alone the records of the others and the target. -/
theorem compute (h : Underway c plan good own owns m parts) (hplan : plan.IsSound c.base)
    (hgood : ∀ r ∈ plan.rules, c.Discipline (plan.promise r).Kept (good r)) (hm : c.holds m)
    (hm' : c.holds m') {i : ℕ} {r : Rule} (hi : plan.rules[i]? = some r)
    (hspares : m.Spares (c.others (owns i)) m') {p : Proc}
    (hp : good r p (owns i ∪ m.made m') m') :
    Underway c plan good (own ∪ m.made m') (Function.update owns i (owns i ∪ m.made m')) m'
      (parts.set i (p.bind (r.finish plan.target))) := by
  refine (h.layout.compute hplan (c.base_le hm) hspares).underway ?_ (forall_set hi ?_ ?_)
  · rw [List.length_set, h.length_eq]
  · rw [Function.update_self]
    exact .computing hp
  · intro j s q hj hs hq
    rw [Function.update_of_ne hj]
    have hmem : s ∈ plan.rules := List.mem_of_getElem? hs
    exact (h.stage j s q hs hq).undisturbed (hgood s hmem) hm hm'
      (hspares.mono (h.layout.owns_subset_others hj)) fun p hp ↦
        h.layout.field?_spot hplan hspares (fun _ ↦ h.layout.mem_others hplan i) hmem hp

/-- A rule ends: in the store, at most the attribute that it writes is another. -/
theorem settle (h : Underway c plan good own owns m parts) (hplan : plan.IsSound c.base)
    (hgood : ∀ r ∈ plan.rules, c.Discipline (plan.promise r).Kept (good r)) (hm : c.holds m)
    {i : ℕ} {r : Rule} (hi : plan.rules[i]? = some r) {s : Store}
    (hwrote : m.store.Wrote c.base (plan.built.landing plan.target r.slot) s) {o : Outcome}
    (hstage : m.Spares (owns i) { m with store := s } → c.holds { m with store := s } →
      Stage plan good r (owns i) { m with store := s } (.settled o)) :
    c.holds { m with store := s } ∧ m.Spares (c.others own) { m with store := s } ∧
      Underway c plan good own owns { m with store := s } (parts.set i (.settled o)) := by
  have hholds : c.holds { m with store := s } := c.stable hm hwrote.below
  obtain ⟨hspares, hlayout⟩ := h.layout.write hplan (List.mem_of_getElem? hi) hwrote
  refine ⟨hholds, hspares _ h.layout.disjoint_others, hlayout.underway ?_ (forall_set hi ?_ ?_)⟩
  · rw [List.length_set, h.length_eq]
  · exact hstage (hspares _ (h.apart_region i)) hholds
  · intro j t q hj ht hq
    exact (h.stage j t q ht hq).undisturbed (hgood t (List.mem_of_getElem? ht)) hm hholds
      (hspares _ (h.apart_region j)) fun p hp ↦ hplan.field?_of_wrote hj hi ht hwrote hp

/-- The compute of a rule has ended: the rule fails as the plan says, or its value is put where it
belongs. -/
theorem write (h : Underway c plan good own owns m parts) (hplan : plan.IsSound c.base)
    (hgood : ∀ r ∈ plan.rules, c.Discipline (plan.promise r).Kept (good r)) (hm : c.holds m)
    {i : ℕ} {r : Rule} (hi : plan.rules[i]? = some r) {o : Outcome}
    (ho : good r (.settled o) (owns i) m) {q : Proc}
    (hrun : m.run (r.finish plan.target o) = (m', q)) :
    c.holds m' ∧ m.Spares (c.others own) m' ∧ m'.store.records.size = m.store.records.size ∧
      Underway c plan good own owns m' (parts.set i q) := by
  have hmem : r ∈ plan.rules := List.mem_of_getElem? hi
  have hkept := (hgood r hmem).ended ho hm
  cases hpromise : plan.promise r with
  | fault is =>
    rw [hpromise] at hkept
    cases o with
    | ok v => exact hkept.elim
    | error e =>
      have hfails : plan.failureOf? r = some fun e ↦ is e ∧ ¬ e.StopsIteration := by
        rw [failureOf?, hpromise]
      rw [r.run_finish_error _ hkept.2] at hrun
      cases hrun
      obtain ⟨hholds, hspares, hunder⟩ := h.settle hplan hgood hm hi
        (Store.wrote_of_records_eq (.refl _ _) rfl) fun _ _ ↦ .failed hfails hkept
      exact ⟨hholds, hspares, rfl, hunder⟩
  | value is =>
    rw [hpromise] at hkept
    cases o with
    | error e => exact hkept.elim
    | ok v =>
      have hland := h.landing_eq hplan hmem
      obtain ⟨s, o, hended, hwrote, hout⟩ := r.run_finish_ok (hplan.valid r hmem) plan.target v m
        c.base fun p hp ↦ (hplan.fresh (hplan.ref_mem hmem (hland ▸ hp))).1
      cases hrun.symm.trans hended
      rw [hland] at hwrote hout
      have hstage : m.Spares (owns i) { m with store := s } → c.holds { m with store := s } →
          Stage plan good r (owns i) { m with store := s } (.settled o) := by
        intro hspares hholds
        have hstays := (hgood r hmem).undisturbed ho hm hholds hspares
        cases hplace : plan.built.landing plan.target r.slot with
        | error refusal =>
          rw [hplace] at hout
          obtain ⟨id, rfl⟩ := hout
          have hfails : plan.failureOf? r = some fun e ↦ e.fault = refusal.toFault r.slot := by
            simp only [failureOf?, hpromise, hplace]
          exact .failed hfails rfl
        | ok place =>
          rw [hplace] at hout
          cases place with
          | none =>
            cases hout
            exact .whole hstays hplace
          | some p =>
            obtain ⟨rfl, hfield⟩ := hout
            exact .written hstays hplace
              (hfield (h.layout.ref_lt hplan (hplan.ref_mem hmem hplace)))
      obtain ⟨hholds, hspares, hunder⟩ := h.settle hplan hgood hm hi hwrote hstage
      exact ⟨hholds, hspares, hwrote.size_eq, hunder⟩

/-- A rule moves: its compute goes on, and when that has ended, the rule ends in the same move. -/
theorem move {before after : List Proc} {p q : Proc}
    (h : Underway c plan good own owns m (before ++ p :: after)) (hplan : plan.IsSound c.base)
    (hgood : ∀ r ∈ plan.rules, c.Discipline (plan.promise r).Kept (good r)) (hm : c.holds m)
    (hmove : Machine.Move m p m' q) :
    c.holds m' ∧ m.Spares (c.others own) m' ∧
      ∃ owns', Underway c plan good (own ∪ m.made m') owns' m' (before ++ q :: after) := by
  have hset : ∀ r s : Proc, (before ++ r :: after).set before.length s = before ++ s :: after := by
    simp
  have hlt : before.length < plan.rules.length := by
    rw [← h.length_eq, List.length_append, List.length_cons]
    omega
  have hi : plan.rules[before.length]? = some plan.rules[before.length] :=
    List.getElem?_eq_getElem hlt
  have hstage := h.stage before.length _ p hi (by simp)
  generalize plan.rules[before.length] = r at hi hstage
  cases hstage with
  | failed | whole | written => exact absurd rfl (hmove.ne_settled _)
  | @computing p₀ hp₀ =>
    have hdisc := hgood r (List.mem_of_getElem? hi)
    obtain ⟨m₁, p₁, hholds, hspares, hnext, hcase⟩ := hdisc.move_bind hp₀ hm hmove
    have hfirst := h.compute hplan hgood hm hholds hi hspares hnext
    have hown : m.Spares (c.others own) m₁ :=
      hspares.mono (c.others_mono (h.owns_subset before.length))
    rw [hset] at hfirst
    rcases hcase with ⟨o, rfl, hrun⟩ | ⟨rfl, rfl⟩
    · obtain ⟨hholds', hspares', hsize, hlast⟩ := hfirst.write hplan hgood hholds hi
        (by rwa [Function.update_self]) hrun
      have hmade : m.made m' = m.made m₁ := by rw [Machine.made, Machine.made, hsize]
      rw [hset] at hlast
      rw [hmade]
      exact ⟨hholds', Surroundings.spares_trans hown hspares', _, hlast⟩
    · exact ⟨hholds, hown, _, hfirst⟩

end Underway

end Underway

end Plan

end Recast
