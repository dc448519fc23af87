import Mathlib.Algebra.BigOperators.Group.List.Defs
import Recast.Proofs.InStep
import Recast.Proofs.Replies

/-!
Deputies. The deputy of an address service has a lookup that comes to the same thing each time
(`AddressService.deputy`). Where it is known which lookups have begun before, and what the next one
comes to, mapping an address by the service and by its deputy are doubles
(`AddressService.Maps.doubles_mapNow`).
-/

set_option autoImplicit false

namespace Recast

/-! ### Mappers with other computes -/

/-- The rule with another compute. -/
def Rule.recomputed (r : Rule) (c : Compute) : Rule := { r with compute := c }

/-- What a rule does with what its compute comes to does not depend on the compute. -/
theorem Rule.advance_recomputed {r : Rule} {c : Compute} {source : Value} {m : Machine}
    (h : m.run (r.evaluate source) = m.run ((r.recomputed c).evaluate source)) (target : Value) :
    Machine.advance (.fresh (r.apply source target)) m =
      Machine.advance (.fresh ((r.recomputed c).apply source target)) m := by
  rw [r.apply_eq, (r.recomputed c).apply_eq, Machine.advance, Machine.advance, Machine.run_bind,
    Machine.run_bind, h]
  rfl

namespace Mapper

/-- The mapper with other computes. -/
def recomputed (mapper : Mapper) (f : Rule → Compute) : Mapper :=
  { mapper with rules := mapper.rules.map fun r ↦ r.recomputed (f r) }

theorem firstFailure?_recomputed (f : Rule → Compute) (rules : List Rule) (os : List Outcome) :
    firstFailure? ((rules.map fun r ↦ r.recomputed (f r)).zip os) =
      (firstFailure? (rules.zip os)).map fun failed ↦
        (failed.1.recomputed (f failed.1), failed.2) := by
  induction rules generalizing os with
  | nil => rfl
  | cons r rules ih =>
    cases os with
    | nil => rfl
    | cons o os =>
      rw [List.map_cons, List.zip_cons_cons, List.zip_cons_cons, firstFailure?, firstFailure?]
      cases failure? o with
      | some e => rfl
      | none => exact ih os

theorem result_recomputed (mapper : Mapper) (f : Rule → Compute) :
    (mapper.recomputed f).result = mapper.result := by
  have hwhole : (mapper.recomputed f).isWhole = mapper.isWhole := by
    rw [isWhole, isWhole, recomputed]
    cases mapper.rules <;> rfl
  funext target results
  rw [result, result, hwhole]

/-- What follows the rules does not depend on their computes. -/
theorem whenAll_recomputed (mapper : Mapper) (f : Rule → Compute) :
    (mapper.recomputed f).whenAll = mapper.whenAll := by
  funext target outcomes
  cases outcomes with
  | none => rfl
  | some os =>
    have hfailure := firstFailure?_recomputed f mapper.rules os
    rw [whenAll, whenAll, conclude, conclude, result_recomputed]
    rw [show (mapper.recomputed f).rules = mapper.rules.map fun r ↦ r.recomputed (f r) from rfl,
      hfailure]
    cases firstFailure? (mapper.rules.zip os) with
    | none => rfl
    | some failed => rfl

end Mapper

namespace Builder

/-- The builder with other computes. -/
def recomputed (b : Builder) (f : Rule → Compute) : Builder :=
  { b with rules := b.rules.map fun r ↦ r.recomputed (f r) }

variable {b : Builder} {s : Store} {pattern : Pattern}

theorem shown_eq {b' : Builder} (hsource : b'.source = b.source) (htarget : b'.target = b.target)
    (hlength : b'.rules.length = b.rules.length) : b'.shown = b.shown := by
  unfold shown
  rw [hsource, htarget, hlength]

theorem snapshot_recomputed (b : Builder) (f : Rule → Compute) :
    (b.recomputed f).snapshot = b.snapshot.recomputed f :=
  congrArg (Mapper.mk · b.target _) (shown_eq rfl rfl (List.length_map _))

theorem Plain.recomputed (h : b.Plain s pattern) (f : Rule → Compute) :
    (b.recomputed f).Plain s pattern where
  consistent :=
    { valid := List.forall_mem_map.mpr h.consistent.valid
      apart := List.pairwise_map.mpr h.consistent.apart
      claimed := by
        rw [Builder.recomputed, List.map_map]
        exact h.consistent.claimed
      kind := List.forall_mem_map.mpr h.consistent.kind }
  rules_ne_nil := by simpa [Builder.recomputed] using h.rules_ne_nil
  single := List.forall_mem_map.mpr h.single
  makes := h.makes
  lets := List.forall_mem_map.mpr h.lets

end Builder

/-- Only the last rule is another one, if the computes of the others are the same. -/
theorem Builder.rules_recomputed {b : Builder} {f : Rule → Compute} {others : List Rule} {r : Rule}
    (hrules : b.rules = others ++ [r]) (hothers : ∀ q ∈ others, f q = q.compute) :
    (b.recomputed f).rules = others ++ [r.recomputed (f r)] := by
  have hmap : (others.map fun q ↦ q.recomputed (f q)) = others := by
    refine (List.map_congr_left fun q hq ↦ ?_).trans (List.map_id others)
    rw [hothers q hq]
    rfl
  rw [Builder.recomputed, hrules, List.map_append, hmap]
  rfl

/-- What is on no errand begins no lookups. -/
theorem Errands.Prompt.lookups_eq {s : Store} {leaves : Prop} {results : List (Outcome → Prop)}
    {turns : ℕ} {ps : List Proc} (h : Prompt s leaves results turns 0 ps) {m : Machine}
    (hm : s.Stands m) : s.Stands (Machine.advanceAll ps m).1 ∧
      (Machine.advanceAll ps m).1.store.lookups = m.store.lookups := by
  obtain ⟨st, hleft, hzero, _⟩ := h.turn hm
  have hbegun := hleft.of.todo_eq
  rw [hzero, add_zero, Multiset.coe_eq_zero] at hbegun
  refine ⟨hleft.of.deed.stands, ?_⟩
  rw [hleft.of.deed.lookups_eq, hbegun, List.append_nil]

/-- Mappers whose last rules do the same, if just these lookups have begun before, are doubles when
their other rules are the same and begin no lookups. -/
theorem Builder.Plain.doubles_transform {b : Builder} {s : Store} {pattern : Pattern}
    {source : Value} {before : List Value} {f : Rule → Compute} {others : List Rule} {r : Rule}
    (h : b.Plain s pattern) (hsource : source ≠ .null) (hrules : b.rules = others ++ [r])
    (hothers : ∀ q ∈ others, f q = q.compute ∧
      Errand.Prompt s True (Fate.Met none) 1 0 (.fresh (q.evaluate source)))
    (hlast : ∀ m, s.Stands m → m.store.lookups = before →
      m.run (r.evaluate source) = m.run ((r.recomputed (f r)).evaluate source)) :
    (b.snapshot.transform source).Doubles s before
      ((b.recomputed f).snapshot.transform source) := by
  intro m hm
  obtain ⟨target, built, hmade, hrun, _⟩ := h.run_transform hsource hm
  have hrun' := (b.recomputed f).snapshot.run_transform (h.recomputed f).rules_ne_nil hsource
    hmade.made
  have hmoves : ∀ {rules : List Rule}, rules ≠ [] → ∀ m', Machine.anyCanMove m'
      ((rules.map fun r ↦ r.apply source target).map .fresh) = true := fun hne m' ↦
    Machine.anyCanMove_map_fresh (by simpa using hne) m'
  refine ⟨_, _, _, hrun, hrun', hmoves h.rules_ne_nil, hmoves (h.recomputed f).rules_ne_nil,
    fun m' hm' hbefore ↦ ?_⟩
  let fates (_ : Rule) : Fate := none
  have hfinish : ∀ q ∈ others, ∀ o, (fates q).Met o →
      s.Instant (fates q).Met (q.finish target o) := fun q hq ↦
    h.instant_finish hm hmade q (hrules ▸ List.mem_append_left _ hq)
  have hquiet : Errands.Prompt s True (others.map fun _ ↦ Fate.Met none)
      (others.map fun _ ↦ 1).sum (others.map fun _ ↦ 0).sum
      ((others.map fun q ↦ q.apply source target).map .fresh) :=
    .of_rules hfinish fun q hq ↦ (hothers q hq).2
  rw [List.sum_map_zero] at hquiet
  -- The other rules come first and begin no lookups, so the last one finds those of before.
  obtain ⟨hstands, hlookups⟩ := hquiet.lookups_eq hm'
  have happly := Rule.advance_recomputed (hlast _ hstands (hlookups.trans hbefore)) target
  have hlists : ∀ q : Rule, ((others ++ [q]).map fun r ↦ r.apply source target).map Proc.fresh =
      (others.map fun r ↦ r.apply source target).map Proc.fresh ++
        [.fresh (q.apply source target)] := fun q ↦ by simp
  have hall : Machine.advanceAll ((b.rules.map fun r ↦ r.apply source target).map .fresh) m' =
      Machine.advanceAll (((b.recomputed f).rules.map fun r ↦ r.apply source target).map .fresh)
        m' := by
    rw [hrules, rules_recomputed hrules fun q hq ↦ (hothers q hq).1, hlists, hlists,
      Machine.advanceAll_append, Machine.advanceAll_append, Machine.advanceAll_cons,
      Machine.advanceAll_cons, happly]
  have hthen : (b.recomputed f).snapshot.whenAll = b.snapshot.whenAll := by
    rw [snapshot_recomputed, Mapper.whenAll_recomputed]
  rw [Mapper.gathering, Mapper.gathering, Machine.advance_joining, Machine.advance_joining, hthen]
  exact congrArg (fun t ↦ Machine.joinOn t.2 (b.snapshot.whenAll target) t.1) hall

/-! ### Addresses -/

namespace AddressService

/-- The compute of a rule, with another lookup. -/
def substitute (p : Prog) (r : Rule) : Compute :=
  if r.attribute = "country_name" then countryName (CountryReply.always p) else r.compute

/-- The service with a lookup that comes to the same thing each time. -/
def deputy (a : AddressService) (p : Prog) : AddressService :=
  { a with mapper := a.mapper.recomputed (substitute p) }

variable {s : Store} {lookup : CountryLookup} {a : AddressService} {before : List Value} {v : Value}
  {x : Address} {p : Prog}

theorem Maps.deputy (ha : a.Maps s lookup) (p : Prog) :
    (a.deputy p).Maps s (CountryReply.always p) := by
  obtain ⟨b, owner, hb, hrules, hmapper⟩ := ha
  refine ⟨b.recomputed (substitute p), owner, hb.recomputed _, ?_, ?_⟩
  · rw [Builder.recomputed, hrules]
    rfl
  · rw [AddressService.deputy, hmapper, Builder.snapshot_recomputed]

/-- Where just these lookups have begun before, mapping an address by the service and by its deputy
are doubles. -/
theorem Maps.doubles_mapNow (ha : a.Maps s lookup) (hx : s.IsAddress v x)
    (hsame : ∀ m : Machine, m.store.lookups = before → m.run (lookup (.int x.country)) =
      m.run (CountryReply.always p (.int x.country))) :
    (a.mapNow v).asCoroutine.Doubles s before ((a.deputy p).mapNow v).asCoroutine := by
  obtain ⟨b, owner, hb, hrules, hmapper⟩ := ha
  have hv : v ≠ .null := by
    obtain ⟨ref, rfl, _⟩ := hx
    exact nofun
  have hothers : ∀ q ∈ Rule.series owner 0 copies, substitute p q = q.compute ∧
      Errand.Prompt s True (Fate.Met none) 1 0 (.fresh (q.evaluate v)) := by
    intro q hq
    obtain ⟨entry, hentry, hslot, hcompute⟩ := Rule.mem_series hq
    rw [substitute, Builder.Plain.attribute_eq hslot, if_neg (ne_of_mem_copies entry hentry)]
    exact ⟨rfl, (Errand.of_instant (instant_copies hx entry hentry q hcompute)).prompt⟩
  have htransform : (b.snapshot.transform v).Doubles s before
      ((b.recomputed (substitute p)).snapshot.transform v) := by
    refine hb.doubles_transform hv hrules hothers fun m hm hbefore ↦ ?_
    have hlast : substitute p ⟨.field, ⟨⟨["country_name"]⟩, ⟨owner, 4⟩⟩, countryName lookup⟩ =
        countryName (CountryReply.always p) := if_pos rfl
    rw [Rule.evaluate_asynchronous rfl, Rule.evaluate_asynchronous hlast, Prog.asCoroutine,
      Prog.asCoroutine, Machine.run_bind, Machine.run_bind, run_country hx hm, run_country hx hm,
      hsame m hbefore]
  rw [Builder.snapshot_recomputed, ← hmapper] at htransform
  have hlogged := (htransform.bind Prog.guarded).bind
    (Prog.onward fun dto ↦ Prog.also (Action.report entry) (Prog.give dto))
  rw [← Prog.asCoroutine, ← Prog.asCoroutine, ← Prog.andThen_eq, ← Prog.andThen_eq] at hlogged
  exact hlogged.bind Prog.guarded

end AddressService

end Recast
