import Recast.Proofs.Frame

/-!
Each call writes into its own target. Where the computes that are no mappers change no record and
every target is made anew, the targets of different calls are apart and nothing of them has changed
but what their own rules have written (`Surroundings.Orderly`). However many calls are made, nested
to any depth and going on in any order, all writes to records are those of field rules that end
well, one each, into the target of the call (`Traffic.each_call_writes_its_own_target`).
-/

set_option autoImplicit false

namespace Recast

/-! ### Computes and targets -/

namespace Surroundings

/-- In whatever order others move, the process of the program changes no record and takes away
nothing that may be relied on. -/
def Harmless (c : Surroundings) (p : Prog) : Prop :=
  ∃ good : Proc → Prop, good (.fresh p) ∧ ∀ m q m' r, good q → c.holds m →
    Machine.Move m q m' r → c.holds m' ∧ m.Spares Set.univ m' ∧ good r

/-- The compute of a rule changes no record. Where nothing is waited for, it ends at once. -/
def Innocent (c : Surroundings) (kind : Mapper.Kind) (r : Rule) : Prop :=
  ∀ source, match kind with
    | .asynchronous => c.Harmless (r.evaluate source)
    | .synchronous => ∀ m, c.holds m → ∃ m' o,
        m.run (r.obtainSync source) = (m', .settled o) ∧ c.holds m' ∧ m.Spares Set.univ m'

/-- Wherever the target of a mapper is made, every object on the paths of its rules is made anew, a
different one at each place. -/
def Renews (c : Surroundings) (mapper : Mapper) : Prop :=
  ∀ m target built, c.holds m → Action.construct mapper.target m.store = (.ok target, built) →
    built.Unaliased target (Set.Ico m.store.records.size built.records.size)
      (mapper.rules.map Rule.slot)

/-- Where the value of a rule comes from: from a compute that changes no record, or from the call of
a mapper at the address of the compute, which has ended in it. -/
inductive Delivers (c : Surroundings) (r : Rule) (a : List ℕ) (σ : Scene) (o : Outcome) : Prop
  | leaf {kind : Mapper.Kind} (h : c.Innocent kind r) (hnone : σ.activation a = none)
  | mapper {x : Activation} (hx : σ.activation a = some x)
      (hcompute : r.compute = x.mapper.compute x.kind) (hended : x.outcome ≠ none)
      (hvalue : ∀ v, o = .ok v → x.outcome = some (.ok v))

/-- Scenes of mappers that builders have made, with targets made anew. What else goes on changes no
record. -/
def frame (c : Surroundings) : Setting where
  admits mapper kind :=
    (∃ b : Builder, b.Registered ∧ b.mapperOf kind = .ok mapper) ∧ c.Renews mapper
  quiet m m' := (c.holds m → c.holds m') ∧ m.Spares Set.univ m'
  opens _ m m' := m' = m
  gives := c.Delivers

end Surroundings

/-! ### Targets being filled -/

namespace Activation

/-- The rules of a call with the target that they fill; what their computes give is left open. -/
def plan (x : Activation) (t : Making) : Plan :=
  ⟨x.mapper.rules, fun _ ↦ .value fun _ _ ↦ True, t.target, t.built, t.region⟩

/-- A rule of the call has ended well and has written the attribute. -/
def HasSet (x : Activation) (t : Making) (ref : ℕ) (name : String) : Prop :=
  ∃ (i : ℕ) (r : Rule) (given : Outcome) (w : Value) (p : Spot),
    x.mapper.rules[i]? = some r ∧ x.progress[i]? = some (.ended given (.ok w)) ∧
      t.built.landing t.target r.slot = .ok (some p) ∧ p.ref = ref ∧ p.name = name

/-- The target of a call is as its rules have left it: at the slots of the rules that have ended
well are the values that their computes gave, and all else is as it was made. -/
structure Fits (c : Surroundings) (x : Activation) (t : Making) (m : Machine) : Prop where
  sound : (x.plan t).IsSound c.base
  kind_iff : ∀ r ∈ x.mapper.rules, r.kind = .whole ↔ r.slot.path = []
  size_le : t.built.records.size ≤ m.store.records.size
  types_eq : m.store.types = t.built.types
  landed : ∀ (i : ℕ) r given w, x.mapper.rules[i]? = some r →
    x.progress[i]? = some (.ended given (.ok w)) →
    ∃ place, t.built.landing t.target r.slot = .ok place
  written : ∀ (i : ℕ) r given w p, x.mapper.rules[i]? = some r →
    x.progress[i]? = some (.ended given (.ok w)) →
    t.built.landing t.target r.slot = .ok (some p) →
    w = t.target ∧ ∃ v, given = .ok v ∧ m.store.field? p.ref p.name = some v
  kept : ∀ ref ∈ t.region, ∀ name, ¬ x.HasSet t ref name →
    m.store.field? ref name = t.built.field? ref name

namespace Fits

variable {c : Surroundings} {x : Activation} {t : Making} {m m' : Machine}

theorem ref_lt (h : x.Fits c t m) {ref : ℕ} (href : ref ∈ t.region) :
    ref < m.store.records.size :=
  href.2.trans_le h.size_le

/-- A write lands where it would have landed when the target was made. -/
theorem landing_eq (h : x.Fits c t m) {r : Rule} (hr : r ∈ x.mapper.rules) :
    m.store.landing t.target r.slot = t.built.landing t.target r.slot := by
  refine Store.landing_congr h.types_eq fun before ref name hvisit ↦ ?_
  have hmem := h.sound.unaliased.mem r.slot (List.mem_map_of_mem hr) before ref name
    (hvisit.of_prefix (List.dropLast_prefix _))
  refine h.kept ref hmem name ?_
  rintro ⟨_, s, _, _, p, hs, _, hland, hp⟩
  exact h.sound.not_isSpot_of_visits hr hvisit ⟨s, List.mem_of_getElem? hs, p, hland, hp⟩

/-- The target stays as it is while its records do. -/
theorem of_spares (h : x.Fits c t m) (hspares : m.Spares t.region m') : x.Fits c t m' :=
  { h with
    size_le := h.size_le.trans hspares.size_le
    types_eq := hspares.types.trans h.types_eq
    written := fun i r given w p hr hended hland ↦ by
      obtain ⟨hw, v, hv, hfield⟩ := h.written i r given w p hr hended hland
      have hmem := h.sound.ref_mem (List.mem_of_getElem? hr) hland
      exact ⟨hw, v, hv, (hspares.field? hmem (h.ref_lt hmem) p.name).trans hfield⟩
    kept := fun ref href name hset ↦
      (hspares.field? href (h.ref_lt href) name).trans (h.kept ref href name hset) }

variable {i : ℕ} {r : Rule} {before : Progress}

/-- A rule that writes nothing goes on. -/
theorem advance (h : x.Fits c t m) (hr : x.mapper.rules[i]? = some r)
    (hi : x.progress[i]? = some before) (hopen : ∀ given result, before ≠ .ended given result)
    {g : Progress} (hg : ∀ given w, g = .ended given (.ok w) →
      t.built.landing t.target r.slot = .ok none) : (x.advance i g).Fits c t m := by
  have hcases : ∀ (j : ℕ) s given w, x.mapper.rules[j]? = some s →
      (x.advance i g).progress[j]? = some (.ended given (.ok w)) →
      t.built.landing t.target s.slot = .ok none ∨
        x.progress[j]? = some (.ended given (.ok w)) := by
    intro j s given w hs hj
    by_cases hij : i = j
    · subst hij
      rw [progress_advance_self hi] at hj
      cases hr.symm.trans hs
      exact Or.inl (hg given w (Option.some.inj hj))
    · rw [x.progress_advance_of_ne hij] at hj
      exact Or.inr hj
  refine ⟨h.sound, h.kind_iff, h.size_le, h.types_eq, ?_, ?_, ?_⟩
  · intro j s given w hs hj
    rcases hcases j s given w hs hj with hnone | hold
    · exact ⟨_, hnone⟩
    · exact h.landed j s given w hs hold
  · intro j s given w p hs hj hland
    rcases hcases j s given w hs hj with hnone | hold
    · cases hnone.symm.trans hland
    · exact h.written j s given w p hs hold hland
  · intro ref href name hset
    refine h.kept ref href name fun ⟨j, s, given, w, p, hs, hj, hp⟩ ↦ hset ?_
    exact ⟨j, s, given, w, p, hs, (becomes_advance hi hopen g).ended j given _ hj, hp⟩

/-- A rule writes the attribute at its slot, which is no other rule's. -/
theorem write (h : x.Fits c t m) (hr : x.mapper.rules[i]? = some r)
    (hi : x.progress[i]? = some before) (hopen : ∀ given result, before ≠ .ended given result)
    {p : Spot} (hland : t.built.landing t.target r.slot = .ok (some p)) {v : Value}
    (htypes : m'.store.types = m.store.types)
    (hrecords : m'.store.records = (m.store.put p v).records) :
    (x.advance i (.ended (.ok v) (.ok t.target))).Fits c t m' := by
  have hmem := h.sound.ref_mem (List.mem_of_getElem? hr) hland
  have hfield : ∀ ref name, m'.store.field? ref name = (m.store.put p v).field? ref name :=
    fun ref name ↦ by rw [Store.field?, Store.field?, hrecords]
  refine ⟨h.sound, h.kind_iff, ?_, htypes.trans h.types_eq, ?_, ?_, ?_⟩
  · rw [hrecords, Store.size_records_put]
    exact h.size_le
  · intro j s given w hs hj
    by_cases hij : i = j
    · subst hij
      cases hr.symm.trans hs
      exact ⟨_, hland⟩
    · rw [x.progress_advance_of_ne hij] at hj
      exact h.landed j s given w hs hj
  · intro j s given w q hs hj hq
    by_cases hij : i = j
    · subst hij
      rw [progress_advance_self hi] at hj
      cases hr.symm.trans hs
      cases hj
      cases hland.symm.trans hq
      exact ⟨rfl, v, rfl, (hfield _ _).trans (Store.field?_put_self _ _ _ (h.ref_lt hmem))⟩
    · rw [x.progress_advance_of_ne hij] at hj
      obtain ⟨hw, u, hu, hold⟩ := h.written j s given w q hs hj hq
      refine ⟨hw, u, hu,
        (hfield _ _).trans ((Store.field?_put_of_ne _ _ _ fun heq ↦ ?_).trans hold)⟩
      obtain ⟨href, hname⟩ := Prod.mk.inj heq
      have hrule : s = r := h.sound.spot_unique (List.mem_of_getElem? hs)
        (List.mem_of_getElem? hr) hq hland href hname
      have hnodup : x.mapper.rules.Nodup := h.sound.nodup
      obtain ⟨hlt, hget⟩ := List.getElem?_eq_some_iff.mp hr
      obtain ⟨hlt', hget'⟩ := List.getElem?_eq_some_iff.mp hs
      exact hij ((List.Nodup.getElem_inj_iff hnodup).mp
        (hget.trans (hrule.symm.trans hget'.symm)))
  · intro ref href name hset
    have hne : (ref, name) ≠ (p.ref, p.name) := fun heq ↦ by
      obtain ⟨rfl, rfl⟩ := Prod.mk.inj heq
      exact hset ⟨i, r, _, _, p, hr, progress_advance_self hi _, hland, rfl, rfl⟩
    refine (hfield _ _).trans ((Store.field?_put_of_ne _ _ _ hne).trans ?_)
    refine h.kept ref href name (mt ?_ hset)
    rintro ⟨j, s, given, w, q, hs, hj, hq⟩
    exact ⟨j, s, given, w, q, hs, (becomes_advance hi hopen _).ended j given _ hj, hq⟩

/-- The target of a call that ends is left as it is. -/
theorem close (h : x.Fits c t m) (o : Outcome) : (x.close o).Fits c t m :=
  ⟨h.sound, h.kind_iff, h.size_le, h.types_eq, h.landed, h.written, h.kept⟩

end Fits

end Activation

/-! ### Steps -/

namespace Surroundings

variable {c : Surroundings} {σ τ : Scene}

/-- Every call is of a mapper that a builder has made, its target is as its rules have left it,
apart from the targets of the other calls, and the values of the rules that have ended are those of
their computes. -/
structure Orderly (c : Surroundings) (σ : Scene) : Prop where
  holds : c.holds σ.machine
  admitted : ∀ a x, σ.activation a = some x → c.frame.admits x.mapper x.kind
  unmade : ∀ a x, σ.activation a = some x → x.made = none → x.progress = []
  fits : ∀ a x t, σ.activation a = some x → x.made = some t → x.Fits c t σ.machine
  apart : ∀ a b x y t u, a ≠ b → σ.activation a = some x → σ.activation b = some y →
    x.made = some t → y.made = some u → Disjoint t.region u.region
  delivered : ∀ a x (i : ℕ) r given result, σ.activation a = some x →
    x.mapper.rules[i]? = some r → x.progress[i]? = some (.ended given result) →
    c.Delivers r (a ++ [i]) σ given

theorem orderly_bare {m : Machine} (hm : c.holds m) : c.Orderly (.bare m) where
  holds := hm
  admitted := nofun
  unmade := nofun
  fits := nofun
  apart := nofun
  delivered := nofun

/-- What a call has delivered, it has delivered for good. -/
theorem Delivers.put {r : Rule} {b : List ℕ} {o : Outcome} (h : c.Delivers r b σ o) {a : List ℕ}
    {y : Activation} (hbecomes : ∀ x, σ.activation a = some x → x.Becomes y)
    (hnew : σ.activation a = none → b ≠ a) (m : Machine) : c.Delivers r b (σ.put a y m) o := by
  by_cases hb : b = a
  · subst hb
    cases h with
    | leaf _ hnone => exact absurd rfl (hnew hnone)
    | @mapper x hx hcompute hended hvalue =>
      have hy := hbecomes x hx
      obtain ⟨o', ho'⟩ := Option.ne_none_iff_exists'.mp hended
      refine .mapper (Scene.activation_put_self ..) ?_ ?_ fun v hv ↦ ?_
      · rw [hy.mapper_eq, hy.kind_eq, hcompute]
      · rw [hy.outcome_eq o' ho']
        exact Option.some_ne_none o'
      · exact hy.outcome_eq _ (hvalue v hv)
  · have hsame := σ.activation_put_of_ne hb y m
    cases h with
    | leaf hinnocent hnone => exact .leaf hinnocent (hsame.trans hnone)
    | mapper hx hcompute hended hvalue => exact .mapper (hsame.trans hx) hcompute hended hvalue

namespace Orderly

variable {a : List ℕ} {x y : Activation} {m : Machine}

/-- What a change of one call has to keep. -/
theorem put (h : c.Orderly σ) (hm : c.holds m) (hadmits : c.frame.admits y.mapper y.kind)
    (hunmade : y.made = none → y.progress = []) (hfits : ∀ t, y.made = some t → y.Fits c t m)
    (hspares : ∀ b z t, b ≠ a → σ.activation b = some z → z.made = some t →
      σ.machine.Spares t.region m)
    (hanew : ∀ t, y.made = some t →
      (∃ x, σ.activation a = some x ∧ x.made = some t) ∨ σ.machine.store.records.size ≤ t.before)
    (hbecomes : ∀ x, σ.activation a = some x → x.Becomes y)
    (hawaited : σ.activation a = none → σ.IsAwaited a)
    (hdelivered : ∀ (i : ℕ) r given result, y.mapper.rules[i]? = some r →
      y.progress[i]? = some (.ended given result) → c.Delivers r (a ++ [i]) σ given) :
    c.Orderly (σ.put a y m) := by
  -- the calls of the new scene are the one that was put and those of the old scene elsewhere
  have hcases : ∀ b z, (σ.put a y m).activation b = some z →
      b = a ∧ z = y ∨ b ≠ a ∧ σ.activation b = some z := by
    intro b z hz
    by_cases hb : b = a
    · subst hb
      rw [Scene.activation_put_self] at hz
      exact Or.inl ⟨rfl, (Option.some.inj hz).symm⟩
    · rw [σ.activation_put_of_ne hb] at hz
      exact Or.inr ⟨hb, hz⟩
  have hfresh : ∀ b z t u, b ≠ a → σ.activation b = some z → z.made = some u →
      y.made = some t → Disjoint u.region t.region := by
    intro b z t u hb hz hu ht
    rcases hanew t ht with ⟨x, hx, hold⟩ | hle
    · exact h.apart b a z x u t hb hz hx hu hold
    · refine Set.disjoint_left.mpr fun ref href href' ↦ ?_
      exact absurd ((h.fits b z u hz hu).ref_lt href) (not_lt.mpr (hle.trans href'.1))
  refine ⟨hm, ?_, ?_, ?_, ?_, ?_⟩
  · intro b z hz
    rcases hcases b z hz with ⟨rfl, rfl⟩ | ⟨_, hz⟩
    · exact hadmits
    · exact h.admitted b z hz
  · intro b z hz
    rcases hcases b z hz with ⟨rfl, rfl⟩ | ⟨_, hz⟩
    · exact hunmade
    · exact h.unmade b z hz
  · intro b z t hz ht
    rcases hcases b z hz with ⟨rfl, rfl⟩ | ⟨hb, hz⟩
    · exact hfits t ht
    · exact (h.fits b z t hz ht).of_spares (hspares b z t hb hz ht)
  · intro b b' z z' t u hne hz hz' ht hu
    rcases hcases b z hz with ⟨rfl, rfl⟩ | ⟨hb, hold⟩ <;>
      rcases hcases b' z' hz' with ⟨rfl, rfl⟩ | ⟨hb', hold'⟩
    · exact absurd rfl hne
    · exact (hfresh b' z' t u hb' hold' hu ht).symm
    · exact hfresh b z u t hb hold ht hu
    · exact h.apart b b' z z' t u hne hold hold' ht hu
  · intro b z i r given result hz hr hi
    rcases hcases b z hz with ⟨rfl, rfl⟩ | ⟨hb, hz⟩
    · refine (hdelivered i r given result hr hi).put hbecomes (fun _ ↦ ?_) m
      exact fun heq ↦ by simpa using congrArg List.length heq
    · refine (h.delivered b z i r given result hz hr hi).put hbecomes (fun hnone heq ↦ ?_) m
      cases (hawaited hnone b i z heq.symm hz).symm.trans hi

/-- A call changes, but no record does. -/
theorem put_silent (h : c.Orderly σ) (hx : σ.activation a = some x) (hm : c.holds m)
    (hspares : σ.machine.Spares Set.univ m) (hbecomes : x.Becomes y)
    (hunmade : y.made = none → y.progress = [])
    (hmade : ∀ t, y.made = some t → x.made = some t ∧ y.Fits c t σ.machine)
    (hdelivered : ∀ (i : ℕ) r given result, y.mapper.rules[i]? = some r →
      y.progress[i]? = some (.ended given result) → c.Delivers r (a ++ [i]) σ given)
    (hfilled : ∀ i, y.Filled i → x.Filled i) :
    c.Orderly (σ.put a y m) ∧ ∃ ds, σ.Passage ds (σ.put a y m) := by
  have hall : ∀ z, σ.activation a = some z → z.Becomes y := fun z hz ↦
    Option.some.inj (hx.symm.trans hz) ▸ hbecomes
  have hanew : ∀ t, y.made = some t → (∃ x, σ.activation a = some x ∧ x.made = some t) ∨
      σ.machine.store.records.size ≤ t.before := fun t ht ↦ Or.inl ⟨x, hx, (hmade t ht).1⟩
  constructor
  · refine h.put hm ?_ hunmade ?_ ?_ hanew hall ?_ hdelivered
    · rw [hbecomes.mapper_eq, hbecomes.kind_eq]
      exact h.admitted a x hx
    · exact fun t ht ↦ (hmade t ht).2.of_spares (hspares.mono (Set.subset_univ _))
    · exact fun _ _ _ _ _ _ ↦ hspares.mono (Set.subset_univ _)
    · exact fun hnone ↦ absurd (hnone.symm.trans hx) (Option.some_ne_none x).symm
  · exact ⟨[], .of_put_silent hspares (fun i hi ↦ ⟨x, hx, hfilled i hi⟩) hall hanew⟩

/-- A target is made. -/
theorem begin (h : c.Orderly σ) (hx : σ.activation a = some x) (hnew : x.IsNew) {target : Value}
    {built : Store}
    (hmade : Action.construct x.mapper.target σ.machine.store = (.ok target, built)) :
    let t : Making := ⟨target, σ.machine.store.records.size, built⟩
    c.Orderly (σ.put a (x.begun t) { σ.machine with store := built }) ∧
      ∃ ds, σ.Passage ds (σ.put a (x.begun t) { σ.machine with store := built }) := by
  intro t
  have hbelow := Action.sameBelow_construct x.mapper.target σ.machine.store
  rw [hmade] at hbelow
  have hspares : σ.machine.Spares Set.univ { σ.machine with store := built } :=
    ⟨hbelow.types, hbelow.size_le, fun ref _ href ↦ hbelow.records ref href⟩
  have hholds := c.stable h.holds (hbelow.mono (c.base_le h.holds))
  obtain ⟨⟨b, hb, hmapper⟩, hrenews⟩ := h.admitted a x hx
  obtain ⟨hsnapshot, _, _⟩ := Builder.mapperOf_eq_ok hmapper
  have hwaiting : ∀ (i : ℕ) given result,
      (x.begun t).progress[i]? ≠ some (.ended given result) := by
    intro i given result hi
    rw [Activation.begun, List.getElem?_map] at hi
    cases hr : x.mapper.rules[i]? with
    | none =>
      rw [hr] at hi
      cases hi
    | some r =>
      rw [hr] at hi
      cases hi
  have hsound : (x.plan t).IsSound c.base := by
    have hmakes : b.snapshot.MakesAnew σ.machine.store target built :=
      ⟨hsnapshot ▸ hmade, hbelow, (Action.isOrdinary_of_construct hmade).2,
        hsnapshot ▸ hrenews σ.machine target built h.holds hmade⟩
    have hplan : x.plan t = b.snapshot.plan (fun _ ↦ .value fun _ _ ↦ True) σ.machine.store target
        built := by
      rw [Activation.plan, hsnapshot]
      rfl
    exact hplan ▸ hb.consistent.isSound hmakes _ (c.base_le h.holds)
  have hfits : (x.begun t).Fits c t { σ.machine with store := built } := by
    refine ⟨hsound, ?_, le_rfl, rfl, ?_, ?_, fun _ _ _ _ ↦ rfl⟩
    · intro r hr
      have hrule : r ∈ x.mapper.rules := hr
      rw [hsnapshot] at hrule
      exact hb.consistent.kind r hrule
    · exact fun i r given w _ hi ↦ absurd hi (hwaiting i given _)
    · exact fun i r given w p _ hi _ ↦ absurd hi (hwaiting i given _)
  have hbecomes : ∀ z, σ.activation a = some z → z.Becomes (x.begun t) := by
    intro z hz
    cases hx.symm.trans hz
    exact Activation.becomes_begun hnew (h.unmade a x hx hnew.1) t
  have hanew : ∀ u, (x.begun t).made = some u → (∃ x, σ.activation a = some x ∧ x.made = some u) ∨
      σ.machine.store.records.size ≤ u.before := by
    rintro u ⟨⟩
    exact Or.inr le_rfl
  constructor
  · refine h.put hholds (h.admitted a x hx) (fun hnone ↦ by cases hnone) ?_ ?_ hanew hbecomes ?_ ?_
    · rintro u ⟨⟩
      exact hfits
    · exact fun _ _ _ _ _ _ ↦ hspares.mono (Set.subset_univ _)
    · exact fun hnone ↦ absurd (hnone.symm.trans hx) (Option.some_ne_none x).symm
    · exact fun i r given result _ hi ↦ absurd hi (hwaiting i given result)
  · refine ⟨[], .of_put_silent hspares (fun i hi ↦ ?_) hbecomes hanew⟩
    obtain ⟨_, given, w, _, _, hended⟩ := hi
    exact absurd hended (hwaiting i given _)

/-- What the other rules have delivered stays delivered when a rule ends, and it delivers too. -/
theorem delivered_advance (h : c.Orderly σ) (hx : σ.activation a = some x) {i : ℕ} {r : Rule}
    (hr : x.mapper.rules[i]? = some r) (hi : x.progress[i]? = some .computing)
    {given result : Outcome} (hgives : c.Delivers r (a ++ [i]) σ given) (j : ℕ) (s : Rule)
    (o o' : Outcome) (hs : (x.advance i (.ended given result)).mapper.rules[j]? = some s)
    (hj : (x.advance i (.ended given result)).progress[j]? = some (.ended o o')) :
    c.Delivers s (a ++ [j]) σ o := by
  by_cases hij : i = j
  · subst hij
    rw [Activation.progress_advance_self hi] at hj
    cases hr.symm.trans hs
    cases hj
    exact hgives
  · rw [x.progress_advance_of_ne hij] at hj
    exact h.delivered a x j s o o' hx hs hj

theorem filled_of_advance {i j : ℕ} {g : Progress} (hij : i ≠ j)
    (h : (x.advance i g).Filled j) : x.Filled j := by
  obtain ⟨s, o, w, hs, hkind, hj⟩ := h
  exact ⟨s, o, w, hs, hkind, (x.progress_advance_of_ne hij _).symm.trans hj⟩

/-- A rule ends without a write. -/
theorem finish_silent (h : c.Orderly σ) (hx : σ.activation a = some x) {t : Making}
    (ht : x.made = some t) {i : ℕ} {r : Rule} (hr : x.mapper.rules[i]? = some r)
    (hi : x.progress[i]? = some .computing) {given result : Outcome}
    (hgives : c.Delivers r (a ++ [i]) σ given) {s : Store}
    (hrecords : s.records = σ.machine.store.records)
    (hbelow : ∀ base, σ.machine.store.SameBelow base s)
    (hfits : (x.advance i (.ended given result)).Fits c t σ.machine)
    (hnot : ¬ (x.advance i (.ended given result)).Filled i) :
    c.Orderly (σ.put a (x.advance i (.ended given result)) { σ.machine with store := s }) ∧
      ∃ ds, σ.Passage ds
        (σ.put a (x.advance i (.ended given result)) { σ.machine with store := s }) := by
  have hspares : σ.machine.Spares Set.univ { σ.machine with store := s } :=
    ⟨(hbelow 0).types, (hbelow 0).size_le, fun _ _ _ ↦ by rw [hrecords]⟩
  refine h.put_silent hx (c.stable h.holds (hbelow _)) hspares
    (Activation.becomes_advance hi nofun _)
    (fun hnone ↦ absurd (hnone.symm.trans ht) (Option.some_ne_none t).symm) ?_
    (h.delivered_advance hx hr hi hgives) ?_
  · intro u hu
    cases ht.symm.trans hu
    exact ⟨ht, hfits⟩
  · intro j hj
    refine filled_of_advance (fun hij ↦ ?_) hj
    exact hnot (hij ▸ hj)

/-- A rule ends with a write into the target of the call. -/
theorem finish_written (h : c.Orderly σ) (hx : σ.activation a = some x) (hopen : x.outcome = none)
    {t : Making} (ht : x.made = some t) {i : ℕ} {r : Rule} (hr : x.mapper.rules[i]? = some r)
    (hi : x.progress[i]? = some .computing) {v : Value}
    (hgives : c.Delivers r (a ++ [i]) σ (.ok v)) {s : Store} {p : Spot}
    (hland : σ.machine.store.landing t.target r.slot = .ok (some p))
    (hrecords : s.records = (σ.machine.store.put p v).records)
    (hbelow : ∀ base ≤ p.ref, σ.machine.store.SameBelow base s) :
    c.Orderly (σ.put a (x.advance i (.ended (.ok v) (.ok t.target)))
        { σ.machine with store := s }) ∧
      ∃ ds, σ.Passage ds (σ.put a (x.advance i (.ended (.ok v) (.ok t.target)))
        { σ.machine with store := s }) := by
  have hmem := List.mem_of_getElem? hr
  have hfits := h.fits a x t hx ht
  have hplace := (hfits.landing_eq hmem).symm.trans hland
  have hregion := hfits.sound.ref_mem hmem hplace
  have hbelow := hbelow c.base (hfits.sound.fresh hregion).1
  have hfield : r.kind = .field := by
    cases hkind : r.kind with
    | field => rfl
    | whole =>
      rw [Store.landing_of_path_eq_nil _ _ ((hfits.kind_iff r hmem).mp hkind)] at hland
      cases hland
  have hended := Activation.progress_advance_self hi (.ended (.ok v) (.ok t.target))
  have hall : ∀ z, σ.activation a = some z →
      z.Becomes (x.advance i (.ended (.ok v) (.ok t.target))) := fun z hz ↦
    Option.some.inj (hx.symm.trans hz) ▸ Activation.becomes_advance hi nofun _
  have hanew : ∀ u, x.made = some u → (∃ x, σ.activation a = some x ∧ x.made = some u) ∨
      σ.machine.store.records.size ≤ u.before := fun u hu ↦ Or.inl ⟨x, hx, hu⟩
  constructor
  · refine h.put (c.stable h.holds hbelow) (h.admitted a x hx)
      (fun hnone ↦ absurd (hnone.symm.trans ht) (Option.some_ne_none t).symm) ?_ ?_ hanew hall
      (fun hnone ↦ absurd (hnone.symm.trans hx) (Option.some_ne_none x).symm)
      (h.delivered_advance hx hr hi hgives)
    · intro u hu
      cases ht.symm.trans hu
      exact hfits.write hr hi nofun hplace hbelow.types hrecords
    · intro b z u hb hz hu
      refine ⟨hbelow.types, hbelow.size_le, fun ref href _ ↦ ?_⟩
      rw [hrecords, Store.records_put_of_ne]
      rintro rfl
      exact (h.apart b a z x u t hb hz hx hu ht).le_bot ⟨href, hregion⟩
  · refine ⟨[⟨a, i, p, v⟩], .of_put (.write .start hrecords) (List.nodup_singleton _) ?_ ?_ ?_ ?_
      hall hanew⟩
    · exact List.forall_mem_singleton.mpr rfl
    · intro j
      rw [List.map_singleton, List.mem_singleton, Deed.rule, Prod.mk.injEq]
      constructor
      · rintro ⟨-, rfl⟩
        refine ⟨⟨r, _, _, hr, hfield, hended⟩, ?_⟩
        rintro ⟨z, hz, _, _, _, _, _, hold⟩
        cases hx.symm.trans hz
        cases hi.symm.trans hold
      · rintro ⟨hj, hnot⟩
        refine ⟨rfl, by_contra fun hij ↦ hnot ⟨x, hx, ?_⟩⟩
        exact filled_of_advance (Ne.symm hij) hj
    · exact List.forall_mem_singleton.mpr ⟨t, r, ht, hr, hfield, hplace, hregion, hended⟩
    · intro _ z hz
      cases hx.symm.trans hz
      exact hopen

/-- A rule ends: its value is written into the target of the call, or nothing is. -/
theorem finish (h : c.Orderly σ) (hx : σ.activation a = some x) (hopen : x.outcome = none)
    {t : Making} (ht : x.made = some t) {i : ℕ} {r : Rule} (hr : x.mapper.rules[i]? = some r)
    (hi : x.progress[i]? = some .computing) {given result : Outcome}
    (hgives : c.Delivers r (a ++ [i]) σ given)
    (hrun : σ.machine.run (r.complete t.target x.kind given) = (m, .settled result)) :
    c.Orderly (σ.put a (x.advance i (.ended given result)) m) ∧
      ∃ ds, σ.Passage ds (σ.put a (x.advance i (.ended given result)) m) := by
  have hmem := List.mem_of_getElem? hr
  have hfits := h.fits a x t hx ht
  obtain ⟨s, result', hcomplete, hcompleted⟩ :=
    Rule.exists_complete (hfits.sound.valid r hmem) t.target x.kind given σ.machine
  cases hcomplete.symm.trans hrun
  cases hcompleted with
  | failed hrecords hbelow =>
    refine h.finish_silent hx ht hr hi hgives hrecords hbelow
      (hfits.advance hr hi nofun nofun) ?_
    rintro ⟨_, _, _, _, _, hended⟩
    rw [Activation.progress_advance_self hi] at hended
    cases hended
  | whole hland hrecords hbelow =>
    refine h.finish_silent hx ht hr hi hgives hrecords hbelow
      (hfits.advance hr hi nofun fun _ _ _ ↦ (hfits.landing_eq hmem).symm.trans hland) ?_
    rintro ⟨r', _, _, hr', hkind, _⟩
    cases hr.symm.trans hr'
    rw [(hfits.kind_iff r hmem).mpr (Store.path_eq_nil_of_landing hland)] at hkind
    cases hkind
  | written hland hrecords hbelow =>
    exact h.finish_written hx hopen ht hr hi hgives hland hrecords hbelow

/-- Steps keep the order, and each writes at most once, into the target of its own call. -/
theorem step (h : c.Orderly σ) (hstep : c.frame.Step σ τ) :
    c.Orderly τ ∧ ∃ ds, σ.Passage ds τ := by
  cases hstep with
  | @other m hquiet =>
    obtain ⟨hholds, hspares⟩ := hquiet
    constructor
    · refine ⟨hholds h.holds, h.admitted, h.unmade, fun a x t hx ht ↦ ?_, h.apart, ?_⟩
      · exact (h.fits a x t hx ht).of_spares (hspares.mono (Set.subset_univ _))
      · intro a x i r given result hx hr hi
        cases h.delivered a x i r given result hx hr hi with
        | leaf hinnocent hnone => exact .leaf hinnocent hnone
        | mapper hx hcompute hended hvalue => exact .mapper hx hcompute hended hvalue
    · exact ⟨[], { Scene.Passage.refl σ with chronicle := .spare .start hspares }⟩
  | @call a mapper kind source ha hawaited hadmits =>
    have hnever : ∀ z, σ.activation a ≠ some z := fun z hz ↦
      absurd (ha.symm.trans hz) (Option.some_ne_none z).symm
    constructor
    · exact h.put h.holds hadmits (fun _ ↦ rfl) nofun (fun _ _ _ _ _ _ ↦ .refl _ _) nofun
        (fun z hz ↦ absurd hz (hnever z)) (fun _ ↦ hawaited) nofun
    · refine ⟨[], .of_put_silent (.refl _ _) (fun i hi ↦ ?_) (fun z hz ↦ absurd hz (hnever z))
        nofun⟩
      obtain ⟨_, _, _, _, _, hended⟩ := hi
      cases hended
  | @absent a x hx hnew hsource =>
    refine h.put_silent hx h.holds (.refl _ _) (Activation.becomes_close hnew.2 _)
      (fun hnone ↦ h.unmade a x hx hnone) ?_
      (fun i r given result ↦ h.delivered a x i r given result hx)
      fun i hi ↦ hi
    exact fun t ht ↦ absurd (hnew.1.symm.trans ht) (Option.some_ne_none t).symm
  | @unmade a x e s hx hnew hsource hmade =>
    have hbelow := Action.sameBelow_construct x.mapper.target σ.machine.store
    rw [hmade] at hbelow
    refine h.put_silent hx (c.stable h.holds (hbelow.mono (c.base_le h.holds)))
      ⟨hbelow.types, hbelow.size_le, fun ref _ href ↦ hbelow.records ref href⟩
      (Activation.becomes_close hnew.2 _) (fun hnone ↦ h.unmade a x hx hnone) ?_
      (fun i r given result ↦ h.delivered a x i r given result hx) fun i hi ↦ hi
    exact fun t ht ↦ absurd (hnew.1.symm.trans ht) (Option.some_ne_none t).symm
  | @begin a x target built hx hnew hsource hmade => exact h.begin hx hnew hmade
  | @start a x i r m hx hopen hr hi hopens =>
    obtain rfl : m = σ.machine := hopens
    have hbecomes := Activation.becomes_advance hi nofun .computing
    have hold : ∀ (j : ℕ) o o', (x.advance i .computing).progress[j]? = some (.ended o o') →
        x.progress[j]? = some (.ended o o') := by
      intro j o o' hj
      by_cases hij : i = j
      · subst hij
        rw [Activation.progress_advance_self hi] at hj
        cases hj
      · rwa [x.progress_advance_of_ne hij] at hj
    refine h.put_silent hx h.holds (.refl _ _) hbecomes ?_ ?_ ?_ ?_
    · intro hnone
      rw [h.unmade a x hx hnone] at hi
      cases hi
    · exact fun t ht ↦ ⟨ht, (h.fits a x t hx ht).advance hr hi nofun nofun⟩
    · exact fun j s o o' hs hj ↦ h.delivered a x j s o o' hx hs (hold j o o' hj)
    · rintro j ⟨s, o, w, hs, hkind, hj⟩
      exact ⟨s, o, w, hs, hkind, hold j o _ hj⟩
  | @finish a x t i r given result m hx hopen ht hr hi hgives hrun =>
    exact h.finish hx hopen ht hr hi hgives hrun
  | @conclude a x o log hx hopen ho =>
    have hbelow : σ.machine.store.SameBelow c.base { σ.machine.store with log := log } :=
      ⟨rfl, rfl, rfl, rfl, rfl, rfl, rfl, rfl, le_rfl, fun _ _ ↦ rfl⟩
    exact h.put_silent hx (c.stable h.holds hbelow) ⟨rfl, le_rfl, fun _ _ _ ↦ rfl⟩
      (Activation.becomes_close hopen o) (h.unmade a x hx)
      (fun t ht ↦ ⟨ht, (h.fits a x t hx ht).close o⟩)
      (fun i r given result ↦ h.delivered a x i r given result hx) fun i hi ↦ hi

/-- So do steps one after the other. -/
theorem run (h : c.Orderly σ) (hrun : c.frame.Run σ τ) : c.Orderly τ ∧ ∃ ds, σ.Passage ds τ := by
  induction hrun with
  | refl => exact ⟨h, [], .refl σ⟩
  | tail _ hstep ih =>
    obtain ⟨hmiddle, ds, hbefore⟩ := ih
    obtain ⟨hlast, ds', hafter⟩ := hmiddle.step hstep
    exact ⟨hlast, ds ++ ds', hbefore.trans hafter⟩

end Orderly

end Surroundings

end Recast
