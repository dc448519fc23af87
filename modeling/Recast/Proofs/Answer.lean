import Recast.Proofs.Interruption
import Recast.Proofs.Nesting
import Recast.Proofs.WholeTarget

/-!
What a call of a mapper gives that nobody cancels. It is told by what is expected of the computes
and by what the targets are made like, for field rules and for a rule for the whole target alike
(`Builder.Answers`). Two calls that give what is told end alike (`Builder.Answers.alike`). When it
is cancelled, the call does no harm to others (`Builder.Consistent.conducts_answers`).
-/

set_option autoImplicit false

namespace Recast

/-! ### What is told of a mapper -/

namespace Mapper

theorem settle_of_failure?_eq_none {o : Outcome} (h : failure? o = none) : settle o = o := by
  rw [settle, h]

theorem fault_or_plain (v : Value) : (∃ id f, v = .fault id f) ∨ failure? (.ok v) = none := by
  cases v with
  | fault id f => exact Or.inl ⟨id, f, rfl⟩
  | _ => exact Or.inr rfl

end Mapper

/-- Faults of one shell stop an iteration together. -/
theorem stopsIteration_of_shell {id id' : ℕ} {f f' : Fault} (h : f'.shell = f.shell)
    (hstops : (Raised.mk id' f').StopsIteration) : (Raised.mk id f).StopsIteration := by
  obtain ⟨args, hargs⟩ := hstops
  subst hargs
  cases f with
  | general kind args' =>
    obtain ⟨rfl, _⟩ := Fault.general.inj h
    exact ⟨args', rfl⟩
  | _ => cases h

/-- What has the shell of a fault object is one. -/
theorem Value.exists_of_shell_eq_fault {v : Value} {id : ℕ} {f : Fault}
    (h : v.shell = (Value.fault id f).shell) :
    ∃ id' f', v = .fault id' f' ∧ f'.shell = f.shell := by
  cases v with
  | fault id' f' => exact ⟨id', f', rfl, (Value.fault.inj h).2⟩
  | _ => cases h

/-- The faults of awaiting have no parts. -/
theorem Store.look_await (s s' : Store) (id id' : ℕ) (a : AwaitError) :
    s.look (.fault id (.await a)) = s'.look (.fault id' (.await a)) := by
  funext path
  cases path with
  | nil => rfl
  | cons step rest => cases step <;> rfl

namespace Builder

variable {b : Builder} {pattern : Pattern} {expect : Rule → Expectation} {source : Value}
  {m m' : Machine} {o o' : Outcome}

/-- What a call gives that nobody cancels: nothing for nothing; else what is expected of the mapper,
where a fault object is raised. -/
def Answers (b : Builder) (pattern : Pattern) (expect : Rule → Expectation) (source : Value)
    (m : Machine) (o : Outcome) : Prop :=
  source = .null ∧ o = .ok .null ∨ source ≠ .null ∧
    ∃ o₀, (pattern.expectation (Plan.writes expect b.rules)).promise.Kept m o₀ ∧
      o = Mapper.settle o₀

/-- A value that is laid over the whole target is all that is seen. -/
theorem overlay_whole {slot : Slot} (hpath : slot.path = []) (face : Face) (e : Expectation) :
    overlay face [(slot, e)] = e.face := by
  funext path
  rw [overlay, hpath]
  exact if_pos (List.nil_prefix)

/-- The value of the only rule, which is for the whole target, is what is expected of the mapper. -/
theorem kept_of_whole {r : Rule} (hrules : b.rules = [r]) (hpath : r.slot.path = []) {v : Value}
    (hnone : (Plan.writes expect b.rules).findSome? pattern.failureOf? = none)
    (hv : (expect r).promise.Kept m (.ok v)) :
    (pattern.expectation (Plan.writes expect b.rules)).promise.Kept m (.ok v) := by
  rw [Pattern.expectation, hnone, Plan.writes, hrules, List.map_singleton, overlay_whole hpath]
  cases hexpect : expect r with
  | fault is =>
    rw [hexpect] at hv
    exact hv.elim
  | value face =>
    rw [hexpect] at hv
    exact hv

/-- A mapper that ends as its plan says gives what is told of it. -/
theorem Consistent.answers (hb : b.Consistent) (hsource : source ≠ .null) {m₀ : Machine}
    {target : Value} {built : Store} (hmade : pattern.Made b.target m₀.store target built)
    (htypes₀ : m₀.store.types = pattern.store.types) (htypes : m.store.types = pattern.store.types)
    (h : (b.snapshot.plan (fun r ↦ (expect r).promise) m₀.store target built).Ending m o) :
    b.Answers pattern expect source m o := by
  refine Or.inr ⟨hsource, ?_⟩
  have hbuilt : built.types = pattern.store.types := hmade.old.types.trans htypes₀
  have hverdict : (Plan.writes expect b.rules).findSome? pattern.failureOf? =
      (b.snapshot.plan (fun r ↦ (expect r).promise) m₀.store target built).failure? :=
    @Plan.findSome?_writes_of_look (b.snapshot.plan _ _ target built) pattern expect rfl hbuilt
      hmade.look_eq
  have hkind : ∀ {r : Rule}, b.rules = [r] → r.kind = .whole → r.slot.path = [] :=
    fun hrules ↦ (hb.kind _ (hrules ▸ List.mem_singleton_self _)).mp
  cases h with
  | failed hfails he =>
    refine ⟨.error _, ?_, rfl⟩
    rw [Pattern.expectation, hverdict, hfails]
    exact ⟨he, Plan.not_stopsIteration_of_failure? hfails he⟩
  | filled hnone hfields hvalues hothers =>
    have hfollows : (b.snapshot.plan (fun r ↦ (expect r).promise) m₀.store target built).Follows
        pattern expect := hmade.follows hfields htypes₀
    exact ⟨.ok target, hfollows.kept (htypes.trans hbuilt.symm)
      (.filled hnone hfields hvalues hothers),
      (Mapper.settle_of_failure?_eq_none hmade.ordinary).symm⟩
  | whole hnone hrules hwhole hvalue hv =>
    exact ⟨_, kept_of_whole hrules (hkind hrules hwhole) (hverdict.trans hnone) hvalue,
      (Mapper.settle_of_failure?_eq_none hv).symm⟩
  | object hnone hrules hwhole hvalue hv =>
    refine ⟨_, kept_of_whole hrules (hkind hrules hwhole) (hverdict.trans hnone) hvalue, ?_⟩
    rw [Mapper.settle, hv]

/-! ### Calls that end alike -/

/-- Two outcomes that are the same as far as can be seen: values that look the same, faults that
look the same, or faults in which a rule is expected to fail. -/
inductive Alike (b : Builder) (pattern : Pattern) (expect : Rule → Expectation) (m m' : Machine) :
    Outcome → Outcome → Prop
  | values {v v' : Value} (h : m.store.look v = m'.store.look v') :
    Alike b pattern expect m m' (.ok v) (.ok v')
  | objects {e e' : Raised}
      (h : m.store.look (.fault e.id e.fault) = m'.store.look (.fault e'.id e'.fault)) :
    Alike b pattern expect m m' (.error e) (.error e')
  | faults {is : Raised → Prop} {e e' : Raised}
      (h : (Plan.writes expect b.rules).findSome? pattern.failureOf? = some is) (he : is e)
      (he' : is e') : Alike b pattern expect m m' (.error e) (.error e')

/-- Fault objects that look the same are raised as faults that look the same. -/
theorem alike_of_look {v v' : Value} (hlook : m.store.look v = m'.store.look v')
    (hout : LetOut (Mapper.settle (.ok v)) o) (hout' : LetOut (Mapper.settle (.ok v')) o') :
    b.Alike pattern expect m m' o o' := by
  have hshell : v.shell = v'.shell := Store.shell_eq_of_look hlook
  rcases Mapper.fault_or_plain v with ⟨id, f, rfl⟩ | hv
  · obtain ⟨id', f', rfl, hf⟩ := Value.exists_of_shell_eq_fault hshell.symm
    cases hout with
    | same hsame =>
      cases hout' with
      | same _ => exact .objects hlook
      | stopped h _ => exact absurd (stopsIteration_of_shell hf h) (hsame _ rfl)
    | stopped h _ =>
      cases hout' with
      | same hsame => exact absurd (stopsIteration_of_shell hf.symm h) (hsame _ rfl)
      | stopped _ _ => exact .objects (Store.look_await _ _ _ _ _)
  · have hv' : Mapper.failure? (.ok v') = none := by
      rcases Mapper.fault_or_plain v' with ⟨id, f, rfl⟩ | hv'
      · obtain ⟨_, _, rfl, _⟩ := Value.exists_of_shell_eq_fault hshell
        cases hv
      · exact hv'
    rw [Mapper.settle_of_failure?_eq_none hv] at hout
    rw [Mapper.settle_of_failure?_eq_none hv'] at hout'
    cases hout
    cases hout'
    exact .values hlook

/-- Calls that nobody cancels end alike, wherever they are made. -/
theorem Answers.alike {o₁ o₁' : Outcome} (h : b.Answers pattern expect source m o)
    (h' : b.Answers pattern expect source m' o') (hout : LetOut o o₁) (hout' : LetOut o' o₁') :
    b.Alike pattern expect m m' o₁ o₁' := by
  rcases h with ⟨hnull, rfl⟩ | ⟨hsource, o₀, hkept, rfl⟩
  · rcases h' with ⟨_, rfl⟩ | ⟨hsource, _⟩
    · cases hout
      cases hout'
      exact .values (Store.look_eq_of_access (fun _ a ↦ by cases a <;> rfl) _ _)
    · exact absurd hnull hsource
  · rcases h' with ⟨hnull, _⟩ | ⟨_, o₀', hkept', rfl⟩
    · exact absurd hnull hsource
    · rw [Pattern.expectation] at hkept hkept'
      cases hverdict : (Plan.writes expect b.rules).findSome? pattern.failureOf? with
      | none =>
        rw [hverdict] at hkept hkept'
        obtain ⟨v, rfl, hlook⟩ := Expectation.kept_value_iff.mp hkept
        obtain ⟨v', rfl, hlook'⟩ := Expectation.kept_value_iff.mp hkept'
        exact alike_of_look (hlook.trans hlook'.symm) hout hout'
      | some is =>
        rw [hverdict] at hkept hkept'
        obtain ⟨e, rfl, he, hstops⟩ := Expectation.kept_fault_iff.mp hkept
        obtain ⟨e', rfl, he', hstops'⟩ := Expectation.kept_fault_iff.mp hkept'
        cases hout with
        | stopped h _ => exact absurd h hstops
        | same =>
          cases hout' with
          | stopped h _ => exact absurd h hstops'
          | same => exact .faults hverdict he he'

/-! ### Calls that may be cancelled -/

section Called

variable {c : Commons} {good : Rule → Bool → Proc → Set ℕ → Machine → Prop} {cancelled : Bool}
  {own : Set ℕ} {q : Proc}

/-- The mapper has not begun, it was cancelled before it had, or it has made a target and its rules
run or have ended. -/
def Called (c : Commons) (b : Builder) (source : Value) (pattern : Pattern)
    (promise : Rule → Promise) (good : Rule → Bool → Proc → Set ℕ → Machine → Prop)
    (cancelled : Bool) (p : Proc) (own : Set ℕ) (m : Machine) : Prop :=
  p = .fresh (b.snapshot.transform source) ∧ own = ∅ ∨ (cancelled = true ∧ ∃ o, p = .settled o) ∨
    ∃ m₀ target built, c.Holds m₀ ∧ pattern.Made b.target m₀.store target built ∧
      Plan.Gathered c (b.snapshot.plan promise m₀.store target built) good b.snapshot cancelled p
        own m

/-- The first move of a mapper makes its target and starts its rules. -/
theorem gathered_of_start (hrules : b.rules ≠ []) (hsource : source ≠ .null)
    (hmakes : c.ground.Makes b.target pattern)
    (hgood : ∀ r ∈ b.rules, c.Conduct (expect r).promise.Left (good r))
    (hstart : ∀ r ∈ b.rules, ∀ m, c.Holds m → good r false (.fresh (r.evaluate source)) ∅ m)
    (hm : c.Holds m) (hrun : m.run (b.snapshot.transform source) = (m', q)) :
    c.Permits ∅ m m' ∧ ∃ target built, pattern.Made b.target m.store target built ∧
      Plan.Gathered c (b.snapshot.plan (fun r ↦ (expect r).promise) m.store target built) good
        b.snapshot cancelled q (m.made m') m' := by
  obtain ⟨_, target, built, hmade⟩ := hmakes m hm.ground
  cases (b.snapshot.run_transform hrules hsource hmade.made).symm.trans hrun
  obtain ⟨hholds, hkeeps⟩ := hm.sameBelow (hmade.old.mono (c.ground.base_le hm.ground))
  have hafloat : Plan.Afloat c (b.snapshot.plan (fun r ↦ (expect r).promise) m.store target built)
      good false _ (fun _ ↦ ∅) { m with store := built } _ :=
    Plan.afloat_start rfl fun r hr ↦ hstart r hr _ hholds
  refine ⟨⟨hholds, hkeeps, hmade.spares _⟩, target, built, hmade, ?_⟩
  cases cancelled with
  | false => exact Or.inl ⟨_, _, false, hafloat, fun _ ↦ rfl, rfl⟩
  | true => exact Or.inl ⟨_, _, false, hafloat.forget hgood, fun _ ↦ rfl, rfl⟩

/-- A call of a mapper does others no harm, cancelled or not, and one that is not cancelled gives
what is told of it. -/
theorem Consistent.conduct_called (hb : b.Consistent) (hrules : b.rules ≠ [])
    (hsource : source ≠ .null) (hmakes : c.ground.Makes b.target pattern)
    (hgood : ∀ r ∈ b.rules, c.Conduct (expect r).promise.Left (good r))
    (hstart : ∀ r ∈ b.rules, ∀ m, c.Holds m → good r false (.fresh (r.evaluate source)) ∅ m) :
    c.Conduct (b.Answers pattern expect source)
      (Called c b source pattern (fun r ↦ (expect r).promise) good) := by
  have hconduct : ∀ {m : Machine} {target : Value} {built : Store}, c.Holds m →
      pattern.Made b.target m.store target built →
      c.Conduct (b.snapshot.plan (fun r ↦ (expect r).promise) m.store target built).Ending
        (Plan.Gathered c _ good b.snapshot) := fun hm hmade ↦
    Plan.conduct_gathered (hb.isSound hmade.makesAnew _ (c.ground.base_le hm.ground)) hgood rfl
  constructor
  · rintro cancelled p own m m' (hfresh | hended | ⟨m₀, target, built, hm₀, hmade, hp⟩) hm hm'
      hkeeps
      hspares
    · exact Or.inl hfresh
    · exact Or.inr (Or.inl hended)
    · exact Or.inr (Or.inr ⟨m₀, target, built, hm₀, hmade,
        (hconduct hm₀ hmade).undisturbed hp hm hm' hkeeps hspares⟩)
  · rintro cancelled p q own m m'
      (⟨rfl, rfl⟩ | ⟨_, o, rfl⟩ | ⟨m₀, target, built, hm₀, hmade, hp⟩) hm hmove
    · cases hmove with
      | start hrun =>
        obtain ⟨hpermits, target, built, hmade, hnext⟩ :=
          gathered_of_start hrules hsource hmakes hgood hstart hm hrun
        rw [Set.empty_union]
        exact ⟨hpermits, Or.inr (Or.inr ⟨m, target, built, hm, hmade, hnext⟩)⟩
    · exact absurd rfl (hmove.ne_settled o)
    · obtain ⟨hpermits, hnext⟩ := (hconduct hm₀ hmade).move hp hm hmove
      exact ⟨hpermits, Or.inr (Or.inr ⟨m₀, target, built, hm₀, hmade, hnext⟩)⟩
  · rintro cancelled p own m (hfresh | ⟨_, hended⟩ | ⟨m₀, target, built, hm₀, hmade, hp⟩)
    · exact Or.inl hfresh
    · exact Or.inr (Or.inl ⟨rfl, hended⟩)
    · exact Or.inr (Or.inr ⟨m₀, target, built, hm₀, hmade, (hconduct hm₀ hmade).forget hp⟩)
  · rintro p own m stop (⟨rfl, rfl⟩ | ⟨_, o, rfl⟩ | ⟨m₀, target, built, hm₀, hmade, hp⟩) hm hstop
    · exact Or.inr (Or.inl ⟨rfl, _, rfl⟩)
    · exact Or.inr (Or.inl ⟨rfl, o, rfl⟩)
    · exact Or.inr (Or.inr ⟨m₀, target, built, hm₀, hmade,
        (hconduct hm₀ hmade).cancel hp hm hstop⟩)
  · rintro o own m (⟨hfresh, _⟩ | ⟨hc, _⟩ | ⟨m₀, target, built, hm₀, hmade, hp⟩) hm
    · cases hfresh
    · cases hc
    · exact hb.answers hsource hmade (hmakes m₀ hm₀.ground).1 (hmakes m hm.ground).1
        ((hconduct hm₀ hmade).ended hp hm)

/-- Wherever it is called, a mapper does others no harm when it is cancelled, and when it is not, it
gives what is told of it. -/
theorem Consistent.conducts_answers (hb : b.Consistent) (hrules : b.rules ≠ [])
    (hmakes : c.ground.Makes b.target pattern)
    (hcomputes : ∀ r ∈ b.rules, c.Conducts (expect r).promise.Left (r.evaluate source)) :
    c.Conducts (b.Answers pattern expect source) (b.snapshot.transform source) := by
  by_cases hsource : source = .null
  · subst hsource
    exact (Commons.endsIn_give fun m _ ↦ Or.inl ⟨rfl, rfl⟩).conducts
  · choose! good hgood hstart using hcomputes
    exact ⟨_, hb.conduct_called hrules hsource hmakes hgood hstart, fun _ _ ↦ Or.inl ⟨rfl, rfl⟩⟩

end Called

end Builder

end Recast
