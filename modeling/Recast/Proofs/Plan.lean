import Recast.Mapping.Mapper
import Recast.Proofs.Interference
import Recast.Proofs.Registration
import Mathlib.Data.List.Pairwise

/-!
What a mapper is to do. A plan is a fresh target with the rules that fill it and what the compute of
each rule promises. In a sound plan the paths of the rules pass each record at most once and no slot
overlaps another, so that no rule writes what another reads on its way (`Plan.not_isSpot_of_visits`)
or what another writes (`Plan.spot_unique`). `Plan.Ending` is how a mapper ends: in the failure of
the earliest rule that fails, which the plan alone decides (`Plan.failure?`), or in the result.
-/

set_option autoImplicit false

namespace Recast

/-! ### Targets -/

/-- The objects that the paths of slots pass are among the given records, and no two places on the
paths hold the same one. -/
structure Store.Unaliased (s : Store) (target : Value) (region : Set ℕ) (slots : List Slot) :
    Prop where
  mem : ∀ slot ∈ slots, ∀ before ref name,
    s.Visits target slot.path before ref name → ref ∈ region
  unique : ∀ slot ∈ slots, ∀ slot' ∈ slots, ∀ before before' ref name name',
    s.Visits target slot.path before ref name → s.Visits target slot'.path before' ref name' →
      before = before'

theorem Store.visits_of_landing {s : Store} {target : Value} {slot : Slot} {spot : Spot}
    (h : s.landing target slot = .ok (some spot)) :
    ∃ parents, slot.path = parents ++ [spot.name] ∧
      s.Visits target slot.path parents spot.ref spot.name := by
  obtain ⟨parents, hpath, hwalk⟩ := exists_of_landing h
  exact ⟨parents, hpath, ⟨[], hpath⟩, spot.type, hwalk⟩

/-- The places on a path that hold a record, each with the record. -/
def Store.passes (s : Store) (v : Value) : List String → List (List String × ℕ)
  | [] => []
  | name :: rest =>
    let later := match s.attribute? v name with
      | some w => (s.passes w rest).map fun place ↦ (name :: place.1, place.2)
      | none => []
    match v with
    | .record ref _ => ([], ref) :: later
    | _ => later

theorem Store.mem_passes_of_visits {s : Store} {v : Value} {path before : List String} {ref : ℕ}
    {name : String} (h : s.Visits v path before ref name) : (before, ref) ∈ s.passes v path := by
  obtain ⟨⟨after, rfl⟩, type, hwalk⟩ := h
  induction before generalizing v with
  | nil =>
    cases hwalk
    exact List.mem_cons_self
  | cons step before ih =>
    rw [walk] at hwalk
    cases hw : s.attribute? v step with
    | none =>
      rw [hw] at hwalk
      cases hwalk
    | some w =>
      rw [hw] at hwalk
      have hlater : (step :: before, ref) ∈ (s.passes w (before ++ name :: after)).map
          fun place ↦ (step :: place.1, place.2) := List.mem_map.mpr ⟨_, ih hwalk, rfl⟩
      rw [List.cons_append]
      unfold passes
      rw [hw]
      dsimp only
      split
      · exact List.mem_cons_of_mem _ hlater
      · exact hlater

/-- Whether the objects on the paths of slots are new and told apart can be computed. -/
theorem Store.unaliased_of_passes {s : Store} {target : Value} {first last : ℕ} {slots : List Slot}
    (h : ∀ x ∈ slots.flatMap fun slot ↦ s.passes target slot.path, (first ≤ x.2 ∧ x.2 < last) ∧
      ∀ y ∈ slots.flatMap fun slot ↦ s.passes target slot.path, x.2 = y.2 → x.1 = y.1) :
    s.Unaliased target (Set.Ico first last) slots where
  mem slot hslot _ _ _ hvisit :=
    (h _ (List.mem_flatMap.mpr ⟨slot, hslot, mem_passes_of_visits hvisit⟩)).1
  unique slot hslot slot' hslot' _ _ _ _ _ hvisit hvisit' :=
    (h _ (List.mem_flatMap.mpr ⟨slot, hslot, mem_passes_of_visits hvisit⟩)).2 _
      (List.mem_flatMap.mpr ⟨slot', hslot', mem_passes_of_visits hvisit'⟩) rfl

/-! ### Promises -/

/-- What a compute does with a source: it gives a value of a kind, or it fails in a way. -/
inductive Promise where
  | value (is : Machine → Value → Prop)
  | fault (is : Raised → Prop)

/-- An outcome is as promised. No fault is the one by which an iteration stops. -/
def Promise.Kept : Promise → Machine → Outcome → Prop
  | .value is, m, .ok v => is m v
  | .fault is, _, .error e => is e ∧ ¬ e.StopsIteration
  | .value _, _, .error _ | .fault _, _, .ok _ => False

/-- What leaves a coroutine that ends in an outcome is as promised. So the fault by which an
iteration stops can be promised too, by the one that is let out for it. -/
def Promise.Left (p : Promise) (m : Machine) (o : Outcome) : Prop :=
  ∀ o', LetOut o o' → p.Kept m o'

/-- An outcome that is as promised leaves a coroutine as it is. -/
theorem Promise.Kept.left {p : Promise} {m : Machine} {o : Outcome} (h : p.Kept m o) :
    p.Left m o := by
  intro o' hout
  cases hout with
  | same => exact h
  | stopped hstops =>
    cases p with
    | value is => exact h.elim
    | fault is => exact absurd hstops h.2

theorem Promise.left_ok_iff {p : Promise} {m : Machine} {v : Value} :
    p.Left m (.ok v) ↔ p.Kept m (.ok v) :=
  ⟨fun h ↦ h _ (.same nofun), Promise.Kept.left⟩

theorem Promise.Left.not_value {is : Machine → Value → Prop} {m : Machine} {e : Raised} :
    ¬ (Promise.value is).Left m (.error e) := by
  intro h
  by_cases hstops : e.StopsIteration
  · exact h _ (.stopped hstops 0)
  · exact h _ (.same fun e' he ↦ Except.error.inj he ▸ hstops)

theorem Promise.not_stopsIteration {p : Promise} {m : Machine} {e : Raised}
    (h : p.Kept m (.error e)) : ¬ e.StopsIteration := by
  cases p with
  | value is => exact h.elim
  | fault is => exact h.2

/-! ### Plans -/

/-- A target, the store and the records that it was made in, and the rules that are to fill it, with
what their computes promise. -/
structure Plan where
  rules : List Rule
  promise : Rule → Promise
  target : Value
  built : Store
  region : Set ℕ

namespace Plan

/-- The failures of a rule, if it fails: those of its compute, or a refused write. -/
def failureOf? (plan : Plan) (r : Rule) : Option (Raised → Prop) :=
  match plan.promise r with
  | .fault is => some fun e ↦ is e ∧ ¬ e.StopsIteration
  | .value _ =>
    match plan.built.landing plan.target r.slot with
    | .error refusal => some fun e ↦ e.fault = refusal.toFault r.slot
    | .ok _ => none

/-- The failures of the earliest rule that fails. -/
def failure? (plan : Plan) : Option (Raised → Prop) := plan.rules.findSome? plan.failureOf?

/-- Some rule writes the attribute. -/
def IsSpot (plan : Plan) (ref : ℕ) (name : String) : Prop :=
  ∃ r ∈ plan.rules, ∃ spot, plan.built.landing plan.target r.slot = .ok (some spot) ∧
    spot.ref = ref ∧ spot.name = name

/-- How a mapper ends. -/
inductive Ending (plan : Plan) (m : Machine) : Outcome → Prop
  /-- In a failure of the earliest rule that fails. -/
  | failed {is : Raised → Prop} {e : Raised} (h : plan.failure? = some is) (he : is e) :
    Ending plan m (.error e)
  /-- In the target, with the value of each rule at its slot and all else as it was made. -/
  | filled (h : plan.failure? = none) (hfield : ∀ r ∈ plan.rules, r.kind = .field)
      (hvalues : ∀ r ∈ plan.rules, ∃ v, (plan.promise r).Kept m (.ok v) ∧
        m.store.walk plan.target r.slot.path = some v)
      (hothers : ∀ ref ∈ plan.region, ∀ name, ¬ plan.IsSpot ref name →
        m.store.field? ref name = plan.built.field? ref name) :
    Ending plan m (.ok plan.target)
  /-- In the value of the rule for the whole target. -/
  | whole {r : Rule} {v : Value} (h : plan.failure? = none) (hrules : plan.rules = [r])
      (hkind : r.kind = .whole) (hvalue : (plan.promise r).Kept m (.ok v))
      (hv : Mapper.failure? (.ok v) = none) : Ending plan m (.ok v)
  /-- A fault object that is the value of the rule for the whole target is raised. -/
  | object {r : Rule} {v : Value} {e : Raised} (h : plan.failure? = none)
      (hrules : plan.rules = [r]) (hkind : r.kind = .whole)
      (hvalue : (plan.promise r).Kept m (.ok v)) (hv : Mapper.failure? (.ok v) = some e) :
    Ending plan m (.error e)

/-- Where field rules fail does not depend on the machine. -/
theorem Ending.of_error {plan : Plan} {m m' : Machine} {e : Raised}
    (h : plan.Ending m (.error e)) (hfields : ∀ r ∈ plan.rules, r.kind = .field) :
    plan.Ending m' (.error e) := by
  cases h with
  | failed h he => exact .failed h he
  | object h hrules hkind =>
    rw [hfields _ (hrules ▸ List.mem_singleton_self _)] at hkind
    cases hkind

/-- The rules are those of a consistent builder, and the target is made anew above a position, is no
fault object, and its objects are told apart by their paths. -/
structure IsSound (plan : Plan) (base : ℕ) : Prop where
  valid : ∀ r ∈ plan.rules, r.slot.IsValid
  apart : plan.rules.Pairwise fun r s ↦ r.slot.overlaps s.slot = false
  kind : (∀ r ∈ plan.rules, r.kind = .field ∧ r.slot.path ≠ []) ∨
    ∃ r, plan.rules = [r] ∧ r.kind = .whole ∧ r.slot.path = []
  ordinary : Mapper.failure? (.ok plan.target) = none
  fresh : plan.region ⊆ Set.Ico base plan.built.records.size
  unaliased : plan.built.Unaliased plan.target plan.region (plan.rules.map Rule.slot)

namespace IsSound

variable {plan : Plan} {base : ℕ}

/-- Rules whose slots overlap are the same. -/
theorem eq_of_overlaps (hplan : plan.IsSound base) {r s : Rule} (hr : r ∈ plan.rules)
    (hs : s ∈ plan.rules) (h : r.slot.overlaps s.slot = true) : r = s := by
  have : Std.Symm fun x y : Rule ↦ x.slot.overlaps y.slot = false :=
    ⟨fun x y hxy ↦ (Slot.overlaps_comm y.slot x.slot).trans hxy⟩
  by_contra hne
  have hfalse := hplan.apart.forall hr hs hne
  rw [h] at hfalse
  exact Bool.noConfusion hfalse

/-- A rule stands at one position only. -/
theorem nodup (hplan : plan.IsSound base) : plan.rules.Nodup := by
  refine hplan.apart.imp ?_
  intro r s hrs heq
  rw [heq, Slot.overlaps_self] at hrs
  exact Bool.noConfusion hrs

section Spots

variable {r s : Rule} {p q : Spot}

theorem visits_spot (hr : r ∈ plan.rules)
    (hp : plan.built.landing plan.target r.slot = .ok (some p)) :
    ∃ parents, r.slot.path = parents ++ [p.name] ∧ r.slot ∈ plan.rules.map Rule.slot ∧
      plan.built.Visits plan.target r.slot.path parents p.ref p.name := by
  obtain ⟨parents, hpath, hvisit⟩ := Store.visits_of_landing hp
  exact ⟨parents, hpath, List.mem_map_of_mem hr, hvisit⟩

/-- What a rule writes is part of the target. -/
theorem ref_mem (hplan : plan.IsSound base) (hr : r ∈ plan.rules)
    (hp : plan.built.landing plan.target r.slot = .ok (some p)) : p.ref ∈ plan.region := by
  obtain ⟨parents, _, hslot, hvisit⟩ := visits_spot hr hp
  exact hplan.unaliased.mem r.slot hslot parents p.ref p.name hvisit

/-- Different rules write different attributes: the object would stand at one place of the target
only, so the slots would be the same. -/
theorem spot_unique (hplan : plan.IsSound base) (hr : r ∈ plan.rules) (hs : s ∈ plan.rules)
    (hp : plan.built.landing plan.target r.slot = .ok (some p))
    (hq : plan.built.landing plan.target s.slot = .ok (some q)) (href : p.ref = q.ref)
    (hname : p.name = q.name) : r = s := by
  obtain ⟨parents, hpath, hslot, hvisit⟩ := visits_spot hr hp
  obtain ⟨parents', hpath', hslot', hvisit'⟩ := visits_spot hs hq
  rw [href] at hvisit
  have hparents := hplan.unaliased.unique _ hslot _ hslot' _ _ _ _ _ hvisit hvisit'
  have hpaths : r.slot.path = s.slot.path := by rw [hpath, hpath', hparents, hname]
  exact hplan.eq_of_overlaps hr hs (Slot.overlaps_iff.mpr (Or.inl (hpaths ▸ List.prefix_refl _)))

/-- No rule writes what a rule reads on its way: its slot would begin the slot of the other. -/
theorem not_isSpot_of_visits (hplan : plan.IsSound base) (hr : r ∈ plan.rules)
    {before : List String} {ref : ℕ} {name : String}
    (hvisit : plan.built.Visits plan.target r.slot.path.dropLast before ref name) :
    ¬ plan.IsSpot ref name := by
  rintro ⟨s, hs, p, hp, rfl, rfl⟩
  obtain ⟨parents, hpath, hslot, hvisit'⟩ := visits_spot hs hp
  have hparents := hplan.unaliased.unique _ (List.mem_map_of_mem hr) _ hslot _ _ _ _ _
    (hvisit.of_prefix (List.dropLast_prefix _)) hvisit'
  obtain ⟨⟨after, hafter⟩, _⟩ := hvisit
  have hprefix : parents ++ [p.name] <+: r.slot.path.dropLast := ⟨after, by simp [hafter, hparents]⟩
  have hsame : r = s := by
    refine hplan.eq_of_overlaps hr hs (Slot.overlaps_iff.mpr (Or.inr ?_))
    rw [hpath]
    exact hprefix.trans (List.dropLast_prefix _)
  have hlength := hprefix.length_le
  rw [hsame, hpath, List.dropLast_concat, List.length_append, List.length_singleton] at hlength
  omega

end Spots

end IsSound

end Plan

end Recast
