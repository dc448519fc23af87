import Recast.Proofs.Conduct
import Recast.Proofs.Schedule

/-!
Mappers that may be cancelled. While the rules of a mapper run side by side, each of them computes,
goes on with the cancellation of its compute, or has ended (`Plan.Part`). A cancellation is passed
on to all rules, and what they do then is no harm to others either: they fill what is left of the
same target. A mapper that is not cancelled ends as its plan says (`Plan.conduct_gathered`).
-/

set_option autoImplicit false

namespace Recast

namespace Plan

variable {c : Commons} {plan : Plan} {good : Rule → Bool → Proc → Set ℕ → Machine → Prop}
  {cancelled : Bool} {r : Rule} {own : Set ℕ} {owns : ℕ → Set ℕ} {m m' : Machine}
  {given o : Outcome} {parts : List Proc} {p q : Proc}

/-! ### Rules -/

/-- What a rule makes of the outcome of its compute: it fails as that leaves a coroutine, its write
is refused, or the value is where it belongs. -/
def Completes (plan : Plan) (r : Rule) (m : Machine) : Outcome → Outcome → Prop
  | .error e, o => LetOut (.error e) o
  | .ok v, o =>
    match plan.built.landing plan.target r.slot with
    | .error refusal => ∃ id, o = .error ⟨id, refusal.toFault r.slot⟩
    | .ok none => o = .ok v
    | .ok (some p) => o = .ok plan.target ∧ m.store.field? p.ref p.name = some v

/-- A rule whose compute ends as promised has ended as the plan says. -/
theorem Completes.ended (h : plan.Completes r m given o) (hleft : (plan.promise r).Left m given) :
    plan.Ended m r o := by
  cases given with
  | error e =>
    have hkept := hleft o h
    cases hpromise : plan.promise r with
    | value is => exact absurd (hpromise ▸ hleft) Promise.Left.not_value
    | fault is =>
      have hfails : plan.failureOf? r = some fun e ↦ is e ∧ ¬ e.StopsIteration := by
        rw [failureOf?, hpromise]
      rw [hpromise] at hkept
      cases h <;> exact .failed hfails hkept
  | ok v =>
    have hkept := Promise.left_ok_iff.mp hleft
    cases hpromise : plan.promise r with
    | fault is =>
      rw [hpromise] at hkept
      exact hkept.elim
    | value is =>
      unfold Completes at h
      cases hland : plan.built.landing plan.target r.slot with
      | error refusal =>
        rw [hland] at h
        obtain ⟨id, rfl⟩ := h
        have hfails : plan.failureOf? r = some fun e ↦ e.fault = refusal.toFault r.slot := by
          simp only [failureOf?, hpromise, hland]
        exact .failed hfails rfl
      | ok place =>
        have hnone := failureOf?_eq_none hkept hland
        rw [hland] at h
        cases place with
        | none =>
          cases h
          exact .whole hnone hkept hland
        | some p =>
          obtain ⟨rfl, hfield⟩ := h
          exact .written hnone hkept hland hfield

/-- What has become of the value stays while the attribute that the rule writes does. -/
theorem Completes.of_field? (h : plan.Completes r m given o)
    (hspot : ∀ p, plan.built.landing plan.target r.slot = .ok (some p) →
      m'.store.field? p.ref p.name = m.store.field? p.ref p.name) :
    plan.Completes r m' given o := by
  cases given with
  | error e => exact h
  | ok v =>
    unfold Completes at h ⊢
    cases hland : plan.built.landing plan.target r.slot with
    | error refusal =>
      rw [hland] at h
      exact h
    | ok place =>
      rw [hland] at h
      cases place with
      | none => exact h
      | some p => exact ⟨h.1, (hspot p hland).trans h.2⟩

/-- With the outcome of its compute, a rule ends at once, and at most the attribute at its slot is
another. -/
theorem Layout.exists_finish (h : Layout c.ground plan own owns m)
    (hplan : plan.IsSound c.ground.base) (hr : r ∈ plan.rules) (given : Outcome) : ∃ s o,
      m.run (r.finish plan.target given) = ({ m with store := s }, .settled o) ∧
        m.store.Wrote c.ground.base (plan.built.landing plan.target r.slot) s ∧
        plan.Completes r { m with store := s } given o := by
  cases given with
  | error e =>
    obtain ⟨id, o, hrun, hout⟩ := m.run_guarded (.error e)
    refine ⟨{ m.store with nextId := id }, o, hrun, ?_, hout⟩
    exact Store.wrote_of_records_eq
      ⟨rfl, rfl, rfl, rfl, rfl, rfl, rfl, rfl, le_rfl, fun _ _ ↦ rfl⟩ rfl
  | ok v =>
    have hland := h.landing_eq hplan hr
    obtain ⟨s, o, hrun, hwrote, hout⟩ := r.run_finish_ok (hplan.valid r hr) plan.target v m
      c.ground.base fun p hp ↦ (hplan.fresh (hplan.ref_mem hr (hland ▸ hp))).1
    rw [hland] at hwrote hout
    refine ⟨s, o, hrun, hwrote, ?_⟩
    unfold Completes
    cases hplace : plan.built.landing plan.target r.slot with
    | error refusal =>
      rw [hplace] at hout
      exact hout
    | ok place =>
      rw [hplace] at hout
      cases place with
      | none => exact hout
      | some p => exact ⟨hout.1, hout.2 (h.ref_lt hplan (hplan.ref_mem hr hplace))⟩

/-- How far a rule has come: it computes, its compute was cancelled when that had just ended, or it
has ended, and if it was not cancelled, then with what it makes of the outcome of its compute. -/
inductive Part (plan : Plan) (good : Rule → Bool → Proc → Set ℕ → Machine → Prop)
    (cancelled : Bool) (r : Rule) (own : Set ℕ) (m : Machine) : Proc → Prop
  | computing {q : Proc} (h : good r cancelled q own m) :
    Part plan good cancelled r own m (q.bind (r.finish plan.target))
  | stopped {o : Outcome} (h : cancelled = true) :
    Part plan good cancelled r own m (.ready o (r.finish plan.target))
  | ended {o : Outcome} (h : cancelled = false → ∃ given,
      good r false (.settled given) own m ∧ plan.Completes r m given o) :
    Part plan good cancelled r own m (.settled o)

theorem Part.undisturbed (h : Part plan good cancelled r own m p)
    (hgood : c.Conduct (plan.promise r).Left (good r)) (hm : c.Holds m) (hm' : c.Holds m')
    (hkeeps : c.Keeps m m') (hspares : m.Spares own m')
    (hspot : ∀ p, plan.built.landing plan.target r.slot = .ok (some p) →
      m'.store.field? p.ref p.name = m.store.field? p.ref p.name) :
    Part plan good cancelled r own m' p := by
  cases h with
  | computing h => exact .computing (hgood.undisturbed h hm hm' hkeeps hspares)
  | stopped h => exact .stopped h
  | ended h =>
    refine .ended fun hc ↦ ?_
    obtain ⟨given, hgiven, hout⟩ := h hc
    exact ⟨given, hgood.undisturbed hgiven hm hm' hkeeps hspares, hout.of_field? hspot⟩

theorem Part.forget (h : Part plan good cancelled r own m p)
    (hgood : c.Conduct (plan.promise r).Left (good r)) : Part plan good true r own m p := by
  cases h with
  | computing h => exact .computing (hgood.forget h)
  | stopped => exact .stopped rfl
  | ended => exact .ended nofun

/-- The cancellation of a rule is that of its compute, if that is under way. -/
theorem Part.cancel (h : Part plan good true r own m p)
    (hgood : c.Conduct (plan.promise r).Left (good r)) (hm : c.Holds m)
    {stop : ℕ → Machine → Machine} (hstop : m.Heeds (c.guarded m) stop p.awaited) :
    Part plan good true r own (Machine.cancelWith stop p m).1 (Machine.cancelWith stop p m).2 := by
  cases h with
  | @computing q h =>
    rw [Proc.awaited_bind] at hstop
    obtain ⟨hsame, hq | hq | hq⟩ := Machine.cancelWith_bind stop q (r.finish plan.target) m
    · rw [hq, hsame]
      exact .computing (hgood.cancel h hm hstop)
    · rw [hq]
      exact .stopped rfl
    · rw [hq]
      exact .ended nofun
  | stopped => exact .stopped rfl
  | ended => exact .ended nofun

/-! ### Rules side by side -/

/-- The rules of a plan run side by side, cancelled or not. -/
structure Afloat (c : Commons) (plan : Plan) (good : Rule → Bool → Proc → Set ℕ → Machine → Prop)
    (cancelled : Bool) (own : Set ℕ) (owns : ℕ → Set ℕ) (m : Machine) (parts : List Proc) : Prop
    extends Layout c.ground plan own owns m where
  length_eq : parts.length = plan.rules.length
  part : ∀ i r p, plan.rules[i]? = some r → parts[i]? = some p →
    Part plan good cancelled r (owns i) m p

namespace Afloat

theorem undisturbed (h : Afloat c plan good cancelled own owns m parts)
    (hplan : plan.IsSound c.ground.base)
    (hgood : ∀ r ∈ plan.rules, c.Conduct (plan.promise r).Left (good r)) (hm : c.Holds m)
    (hm' : c.Holds m') (hkeeps : c.Keeps m m') (hspares : m.Spares own m') :
    Afloat c plan good cancelled own owns m' parts where
  toLayout := h.toLayout.undisturbed hplan hspares
  length_eq := h.length_eq
  part i r p hr hp := by
    have hmem : r ∈ plan.rules := List.mem_of_getElem? hr
    exact (h.part i r p hr hp).undisturbed (hgood r hmem) hm hm' hkeeps
      (hspares.mono (h.owns_subset i)) fun q hq ↦
        h.toLayout.field?_spot hplan hspares h.region_subset hmem hq

theorem forget (h : Afloat c plan good cancelled own owns m parts)
    (hgood : ∀ r ∈ plan.rules, c.Conduct (plan.promise r).Left (good r)) :
    Afloat c plan good true own owns m parts :=
  { h with part := fun i r p hr hp ↦
      (h.part i r p hr hp).forget (hgood r (List.mem_of_getElem? hr)) }

/-- A compute goes on: it leaves alone the records of the others and the target. -/
theorem compute (h : Afloat c plan good cancelled own owns m parts)
    (hplan : plan.IsSound c.ground.base)
    (hgood : ∀ r ∈ plan.rules, c.Conduct (plan.promise r).Left (good r)) (hm : c.Holds m) {i : ℕ}
    (hi : plan.rules[i]? = some r) (hpermits : c.Permits (owns i) m m')
    (hp : good r cancelled p (owns i ∪ m.made m') m') :
    Afloat c plan good cancelled (own ∪ m.made m')
      (Function.update owns i (owns i ∪ m.made m')) m'
      (parts.set i (p.bind (r.finish plan.target))) where
  toLayout := h.toLayout.compute hplan (c.ground.base_le hm.ground) hpermits.spares
  length_eq := by rw [List.length_set, h.length_eq]
  part := by
    refine forall_set hi ?_ ?_
    · rw [Function.update_self]
      exact .computing hp
    · intro j s q hj hs hq
      rw [Function.update_of_ne hj]
      have hmem : s ∈ plan.rules := List.mem_of_getElem? hs
      exact (h.part j s q hs hq).undisturbed (hgood s hmem) hm hpermits.holds hpermits.keeps
        (hpermits.spares.mono (h.toLayout.owns_subset_others hj)) fun p hp ↦
          h.toLayout.field?_spot hplan hpermits.spares
            (fun _ ↦ h.toLayout.mem_others hplan i) hmem hp

/-- A rule ends with the outcome of its compute. -/
theorem finish (h : Afloat c plan good cancelled own owns m parts)
    (hplan : plan.IsSound c.ground.base)
    (hgood : ∀ r ∈ plan.rules, c.Conduct (plan.promise r).Left (good r)) (hm : c.Holds m) {i : ℕ}
    (hi : plan.rules[i]? = some r)
    (hgiven : cancelled = false → good r false (.settled given) (owns i) m)
    (hrun : m.run (r.finish plan.target given) = (m', q)) :
    c.Permits own m m' ∧ m.made m' = ∅ ∧
      Afloat c plan good cancelled own owns m' (parts.set i q) := by
  have hmem : r ∈ plan.rules := List.mem_of_getElem? hi
  obtain ⟨s, o, hend, hwrote, hout⟩ := h.toLayout.exists_finish hplan hmem given
  cases hend.symm.trans hrun
  obtain ⟨hholds, hkeeps⟩ := hm.sameBelow hwrote.below
  obtain ⟨hspares, hlayout⟩ := h.toLayout.write hplan hmem hwrote
  refine ⟨⟨hholds, hkeeps, hspares _ h.toLayout.disjoint_others⟩, ?_, hlayout, ?_,
    forall_set hi ?_ ?_⟩
  · rw [Machine.made, hwrote.size_eq, Set.Ico_self]
  · rw [List.length_set, h.length_eq]
  · refine .ended fun hc ↦ ⟨given, ?_, hout⟩
    exact (hgood r hmem).undisturbed (hgiven hc) hm hholds hkeeps (hspares _ (h.apart_region i))
  · intro j t p hj ht hp
    exact (h.part j t p ht hp).undisturbed (hgood t (List.mem_of_getElem? ht)) hm hholds hkeeps
      (hspares _ (h.apart_region j)) fun p hp ↦ hplan.field?_of_wrote hj hi ht hwrote hp

/-- A rule moves: its compute goes on, and when that has ended, the rule ends in the same move. -/
theorem move {before after : List Proc}
    (h : Afloat c plan good cancelled own owns m (before ++ p :: after))
    (hplan : plan.IsSound c.ground.base)
    (hgood : ∀ r ∈ plan.rules, c.Conduct (plan.promise r).Left (good r)) (hm : c.Holds m)
    (hmove : Machine.Move m p m' q) :
    c.Permits own m m' ∧
      ∃ owns', Afloat c plan good cancelled (own ∪ m.made m') owns' m' (before ++ q :: after) := by
  have hset : ∀ r s : Proc, (before ++ r :: after).set before.length s = before ++ s :: after := by
    simp
  have hlt : before.length < plan.rules.length := by
    rw [← h.length_eq, List.length_append, List.length_cons]
    omega
  have hi : plan.rules[before.length]? = some plan.rules[before.length] :=
    List.getElem?_eq_getElem hlt
  have hpart := h.part before.length _ p hi (by simp)
  generalize plan.rules[before.length] = r at hi hpart
  cases hpart with
  | ended => exact absurd rfl (hmove.ne_settled _)
  | stopped hc =>
    cases hmove with
    | resume hrun =>
      obtain ⟨hpermits, hmade, hlast⟩ :=
        h.finish hplan hgood hm hi (fun hnot ↦ nomatch hc.symm.trans hnot) hrun
      rw [hset] at hlast
      rw [hmade, Set.union_empty]
      exact ⟨hpermits, owns, hlast⟩
  | @computing p₀ hp₀ =>
    have hconduct := hgood r (List.mem_of_getElem? hi)
    obtain ⟨m₁, p₁, hpermits, hnext, hcase⟩ := hconduct.move_bind hp₀ hm hmove
    have hfirst := h.compute hplan hgood hm hi hpermits hnext
    have hown : c.Permits own m m₁ := hpermits.mono (h.owns_subset before.length)
    rw [hset] at hfirst
    rcases hcase with ⟨o, rfl, hrun⟩ | ⟨rfl, rfl⟩
    · obtain ⟨hpermits', hmade, hlast⟩ := hfirst.finish hplan hgood hpermits.holds hi
        (fun hc ↦ by rwa [Function.update_self, ← hc]) hrun
      rw [hset] at hlast
      have hall := Machine.made_union_made hpermits.spares.size_le hpermits'.spares.size_le
      rw [hmade, Set.union_empty] at hall
      rw [← hall]
      exact ⟨hown.trans hpermits', _, hlast⟩
    · exact ⟨hown, _, hfirst⟩

/-- A cancellation is passed on to one rule after the other. -/
theorem cancelAll {stop : ℕ → Machine → Machine} (hplan : plan.IsSound c.ground.base)
    (hgood : ∀ r ∈ plan.rules, c.Conduct (plan.promise r).Left (good r)) {before rest : List Proc}
    (h : Afloat c plan good true own owns m (before ++ rest)) (hm : c.Holds m)
    (hstop : m.Heeds (c.guarded m) stop (Proc.awaitedAll rest)) :
    Afloat c plan good true own owns (Machine.cancelAllWith stop rest m).1
      (before ++ (Machine.cancelAllWith stop rest m).2) := by
  induction rest generalizing before m with
  | nil => exact h
  | cons p rest ih =>
    have hset : ∀ q : Proc, (before ++ p :: rest).set before.length q = before ++ q :: rest := by
      simp
    have hlt : before.length < plan.rules.length := by
      rw [← h.length_eq, List.length_append, List.length_cons]
      omega
    have hi : plan.rules[before.length]? = some plan.rules[before.length] :=
      List.getElem?_eq_getElem hlt
    have hpart := h.part before.length _ p hi (by simp)
    have hfirst := hstop.mono (List.subset_append_left _ _)
    have hsubsides := (Machine.subsides_cancelWith p m hfirst).1
    obtain ⟨hm', hkeeps⟩ := hm.subsides hsubsides
    have hothers := h.undisturbed hplan hgood hm hm' hkeeps (hsubsides.spares own)
    have hnext : Afloat c plan good true own owns (Machine.cancelWith stop p m).1
        ((before ++ [(Machine.cancelWith stop p m).2]) ++ rest) := by
      rw [List.append_assoc, List.singleton_append, ← hset]
      refine ⟨hothers.toLayout, by rw [List.length_set, hothers.length_eq], forall_set hi ?_ ?_⟩
      · exact hpart.cancel (hgood _ (List.mem_of_getElem? hi)) hm hfirst
      · exact fun j s q _ hs hq ↦ hothers.part j s q hs hq
    have hrest := (hstop.mono (List.subset_append_right _ _)).subsides hsubsides
    rw [← Commons.guarded_of_subsides hsubsides] at hrest
    have hlast := ih hnext hm' hrest
    rw [List.append_assoc, List.singleton_append] at hlast
    exact hlast

/-- When all have ended that were not cancelled, each rule has ended as the plan says. -/
theorem ended (h : Afloat c plan good false own owns m parts)
    (hgood : ∀ r ∈ plan.rules, c.Conduct (plan.promise r).Left (good r)) (hm : c.Holds m)
    {os : List Outcome} (hos : Proc.outcomes? parts = some os) :
    List.Forall₂ (plan.Ended m) plan.rules os := by
  have hparts := Proc.outcomes?_eq_some_iff.mp hos
  have hlength : os.length = plan.rules.length := by
    rw [← h.length_eq, hparts, List.length_map]
  refine List.forall₂_iff_get.mpr ⟨hlength.symm, ?_⟩
  intro i hi ho
  have hp : parts[i]? = some (.settled os[i]) := by
    rw [hparts, List.getElem?_map, List.getElem?_eq_getElem ho]
    rfl
  have hpart := h.part i plan.rules[i] _ (List.getElem?_eq_getElem hi) hp
  generalize hq : Proc.settled os[i] = q at hpart
  cases hpart with
  | computing => exact absurd hq.symm (Proc.bind_ne_settled _ _ _)
  | stopped hc => cases hc
  | ended hend =>
    cases hq
    obtain ⟨given, hgiven, hout⟩ := hend rfl
    exact hout.ended ((hgood _ (List.getElem_mem hi)).ended hgiven hm)

end Afloat

/-! ### Mappers -/

/-- The mapper waits for its rules, or it has ended, and if it was not cancelled, then in what it
makes of their outcomes. -/
def Gathered (c : Commons) (plan : Plan) (good : Rule → Bool → Proc → Set ℕ → Machine → Prop)
    (mapper : Mapper) (cancelled : Bool) (p : Proc) (own : Set ℕ) (m : Machine) : Prop :=
  (∃ owns parts noted, Afloat c plan good cancelled own owns m parts ∧
      (cancelled = false → noted = false) ∧
      p = .joining noted parts (mapper.whenAll plan.target)) ∨
    ∃ o, p = .settled o ∧ (cancelled = false → ∃ owns parts os,
      Afloat c plan good false own owns m parts ∧ Proc.outcomes? parts = some os ∧
        o = mapper.concluded plan.target os)

theorem Gathered.move (hplan : plan.IsSound c.ground.base)
    (hgood : ∀ r ∈ plan.rules, c.Conduct (plan.promise r).Left (good r)) {mapper : Mapper}
    (h : Gathered c plan good mapper cancelled p own m) (hm : c.Holds m)
    (hmove : Machine.Move m p m' q) :
    c.Permits own m m' ∧ Gathered c plan good mapper cancelled q (own ∪ m.made m') m' := by
  rcases h with ⟨owns, parts, noted, hafloat, hnoted, rfl⟩ | ⟨o, rfl, _⟩
  · cases hmove with
    | part hpart =>
      obtain ⟨hpermits, owns', hafloat'⟩ := hafloat.move hplan hgood hm hpart
      exact ⟨hpermits, Or.inl ⟨owns', _, noted, hafloat', hnoted, rfl⟩⟩
    | join hos hrun =>
      cases noted with
      | true =>
        cases hrun
        exact ⟨.refl hm own, Or.inr ⟨_, rfl, fun hc ↦ nomatch hnoted hc⟩⟩
      | false =>
        obtain ⟨log, hend, _⟩ := mapper.run_conclude plan.target _ m
        cases hend.symm.trans hrun
        obtain ⟨hholds, hkeeps⟩ := hm.sameBelow (sameBelow_log c.ground.base m.store log)
        have hspares : ∀ kept, m.Spares kept { m with store := { m.store with log := log } } :=
          fun kept ↦ ⟨rfl, le_rfl, fun _ _ _ ↦ rfl⟩
        refine ⟨⟨hholds, hkeeps, hspares _⟩, Or.inr ⟨_, rfl, ?_⟩⟩
        rintro rfl
        rw [Machine.made, Set.Ico_self, Set.union_empty]
        exact ⟨owns, parts, _, hafloat.undisturbed hplan hgood hm hholds hkeeps (hspares _), hos,
          rfl⟩
  · exact absurd rfl (hmove.ne_settled o)

/-- A mapper that waits for its rules does others no harm, cancelled or not, and one that is not
cancelled ends as the plan says. -/
theorem conduct_gathered (hplan : plan.IsSound c.ground.base)
    (hgood : ∀ r ∈ plan.rules, c.Conduct (plan.promise r).Left (good r)) {mapper : Mapper}
    (hmapper : mapper.rules = plan.rules) :
    c.Conduct plan.Ending (Gathered c plan good mapper) where
  undisturbed := by
    rintro cancelled p own m m' (⟨owns, parts, noted, hafloat, hp⟩ | ⟨o, rfl, h⟩) hm hm' hkeeps
      hspares
    · exact Or.inl ⟨owns, parts, noted,
        hafloat.undisturbed hplan hgood hm hm' hkeeps hspares, hp⟩
    · refine Or.inr ⟨o, rfl, fun hc ↦ ?_⟩
      obtain ⟨owns, parts, os, hafloat, hos⟩ := h hc
      exact ⟨owns, parts, os, hafloat.undisturbed hplan hgood hm hm' hkeeps hspares, hos⟩
  move h hm hmove := h.move hplan hgood hm hmove
  forget := by
    rintro cancelled p own m (⟨owns, parts, noted, hafloat, _, hp⟩ | ⟨o, rfl, _⟩)
    · exact Or.inl ⟨owns, parts, noted, hafloat.forget hgood, nofun, hp⟩
    · exact Or.inr ⟨o, rfl, nofun⟩
  cancel := by
    rintro p own m stop (⟨owns, parts, noted, hafloat, _, rfl⟩ | ⟨o, rfl, _⟩) hm hstop
    · have hparts : Afloat c plan good true own owns m ([] ++ parts) := hafloat
      exact Or.inl ⟨owns, _, true, Afloat.cancelAll hplan hgood hparts hm hstop, nofun, rfl⟩
    · exact Or.inr ⟨o, rfl, nofun⟩
  ended := by
    rintro o own m (⟨_, _, _, _, _, hp⟩ | ⟨_, hp, h⟩) hm
    · cases hp
    · cases hp
      obtain ⟨owns, parts, os, hafloat, hos, rfl⟩ := h rfl
      exact hafloat.toLayout.ending hplan hmapper (hafloat.ended hgood hm hos)

theorem afloat_start (hstore : m.store = plan.built) {source : Value}
    (hgood : ∀ r ∈ plan.rules, good r false (.fresh (r.evaluate source)) ∅ m) :
    Afloat c plan good false plan.region (fun _ ↦ ∅) m
      ((plan.rules.map fun r ↦ r.apply source plan.target).map .fresh) where
  types_eq := by rw [hstore]
  size_le := by rw [hstore]
  apart _ _ _ := Set.disjoint_empty _
  apart_region _ := Set.empty_disjoint _
  owns_subset _ := Set.empty_subset _
  owns_bounds _ := Set.empty_subset _
  region_subset := subset_rfl
  fields _ _ _ _ := by rw [hstore]
  length_eq := by rw [List.length_map, List.length_map]
  part i r p hr hp := by
    rw [List.getElem?_map, List.getElem?_map, hr] at hp
    cases hp
    simp only [Rule.apply_eq]
    exact .computing (hgood r (List.mem_of_getElem? hr))

end Plan

end Recast
