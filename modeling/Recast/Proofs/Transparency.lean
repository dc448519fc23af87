import Recast.Proofs.Account
import Recast.Proofs.Composition
import Mathlib.Data.Stream.Defs

/-!
Failures pass through layers of mappers. Whatever the moves of a call of a mapper in layers, when
the call has ended there is an account that tells its story (`Mapper.Layered.recounts`), so a
failure is the very fault that was raised where the earliest failing rules lead, and each
asynchronous call with a rule that failed has warned of it once
(`Account.failures_pass_through_layers`).
-/

set_option autoImplicit false

namespace Recast

namespace Footing

variable {c : Footing} {source : Value} {s : Subject} {p : Prog} {r : Rule}
  {mapper : Mapper} {type : String} {target : Value}

/-- Whatever moves the process of the program makes, when it has ended there is an account of them.
-/
def Recounts (c : Footing) (source : Value) (s : Subject) (p : Prog) : Prop :=
  ∀ ms o, c.Lived p ms (.settled o) → ∃ A : Account, A.Tells c source s ms ∧ A.outcome = o

/-- Wherever the program is run, it ends at once, in no awaitable, and there is an account of it. -/
def RecountsAtOnce (c : Footing) (source : Value) (s : Subject) (p : Prog) : Prop :=
  ∀ m, c.holds m → ∃ (m' : Machine) (A : Account), m.run p = (m', .settled A.outcome) ∧
    c.holds m' ∧ A.Tells c source s [(m, m')] ∧ ∀ v, A.outcome = .ok v → v.isAwaitable = false

theorem Leaf.recounts (h : c.Leaf source .asynchronous r) :
    c.Recounts source (.leaf .asynchronous r) (r.evaluate source) :=
  fun _ o hlived ↦ ⟨.leaf o, .leaf h hlived, rfl⟩

theorem Leaf.recountsAtOnce (h : c.Leaf source .synchronous r) :
    c.RecountsAtOnce source (.leaf .synchronous r) (r.obtainSync source) := by
  intro m hm
  obtain ⟨m', o, hrun, hm', _⟩ := h m hm
  refine ⟨m', .leaf o, hrun, hm', .leaf h ⟨m, m', hm, rfl, hrun⟩, ?_⟩
  rintro v ho
  cases ho
  exact Rule.isAwaitable_of_obtainSync hrun

/-- What ends at once ends in its first move. -/
theorem RecountsAtOnce.recounts (h : c.RecountsAtOnce source s p) : c.Recounts source s p := by
  have hall : ∀ ms q, c.Lived p ms q → ms = [] ∧ q = .fresh p ∨
      ∃ A : Account, q = .settled A.outcome ∧ A.Tells c source s ms := by
    intro ms q hlived
    induction hlived with
    | fresh => exact Or.inl ⟨rfl, rfl⟩
    | move _ hmove ih =>
      obtain ⟨hm, hmove⟩ := hmove
      rcases ih with ⟨rfl, rfl⟩ | ⟨A, rfl, _⟩
      · cases hmove with
        | start hrun =>
          obtain ⟨m', A, hend, _, htells, _⟩ := h _ hm
          cases hend.symm.trans hrun
          exact Or.inr ⟨A, rfl, htells⟩
      · exact absurd rfl (hmove.ne_settled _)
  intro ms o hlived
  rcases hall ms _ hlived with ⟨_, hfresh⟩ | ⟨A, hsettled, htells⟩
  · cases hfresh
  · exact ⟨A, htells, (Proc.settled.inj hsettled).symm⟩

/-- The value need not be awaited. -/
theorem RecountsAtOnce.andThen_await (h : c.RecountsAtOnce source s p) :
    c.RecountsAtOnce source s (p.andThen Compute.await) := by
  intro m hm
  obtain ⟨m', A, hrun, hm', htells, hvalue⟩ := h m hm
  refine ⟨m', A, ?_, hm', htells, hvalue⟩
  rw [Prog.andThen, Machine.run_bind, hrun, Machine.goOn]
  cases hA : A.outcome with
  | error e => rfl
  | ok v =>
    dsimp only
    rw [Compute.await, hvalue v hA]
    rfl

/-- No awaitable has to be given up. -/
theorem RecountsAtOnce.obtainSync (h : c.RecountsAtOnce source s (r.obtain source)) :
    c.RecountsAtOnce source s (r.obtainSync source) := by
  intro m hm
  obtain ⟨m', A, hrun, hm', htells, hvalue⟩ := h m hm
  refine ⟨m', A, ?_, hm', htells, hvalue⟩
  rw [Rule.obtainSync, Prog.andThen, Machine.run_bind, hrun, Machine.goOn]
  cases hA : A.outcome with
  | error e => rfl
  | ok v =>
    dsimp only
    rw [hvalue v hA]
    rfl

/-! ### In turn -/

/-- Rules have taken their shares in turn, from stage to stage, all but the last of them well. -/
structure InTurn (c : Footing) (source target : Value) (rules : List Rule)
    (inner : ℕ → Account) (share : ℕ → Share) (stage : ℕ → Machine) (results : List Outcome) :
    Prop where
  length_le : results.length ≤ rules.length
  takes : ∀ i r o, rules[i]? = some r → results[i]? = some o →
    (share i).Takes .synchronous r target (inner i).outcome o
  tells : ∀ i < results.length, (inner i).Tells c source (share i).subject (share i).computed
  whole_eq : ∀ i < results.length, (share i).whole = [(stage i, stage (i + 1))]
  good : ∀ i, i + 1 < results.length → ∃ v, results[i]? = some (.ok v)

theorem inTurn_nil (c : Footing) (source target : Value) (rules : List Rule)
    (inner : ℕ → Account) (share : ℕ → Share) (stage : ℕ → Machine) :
    c.InTurn source target rules inner share stage [] where
  length_le := Nat.zero_le _
  takes _ _ _ _ hi := nomatch hi
  tells := nofun
  whole_eq := nofun
  good := nofun

/-- One rule more before the others. -/
theorem InTurn.cons {rules : List Rule} {inner : ℕ → Account} {share : ℕ → Share}
    {stage : ℕ → Machine} {results : List Outcome}
    (h : c.InTurn source target rules inner share stage results) {A : Account} {m m₁ : Machine}
    {o : Outcome} (hr : s.IsComputeOf .synchronous r) (htells : A.Tells c source s [(m, m₁)])
    (hrun : m₁.run (r.complete target .synchronous A.outcome) = (stage 0, .settled o))
    (ho : results ≠ [] → ∃ v, o = .ok v) :
    c.InTurn source target (r :: rules) (Stream'.cons A inner)
      (Stream'.cons ⟨s, [], m, m₁, stage 0⟩ share) (Stream'.cons m stage) (o :: results) where
  length_le := by simpa using h.length_le
  takes i q o' hq ho' := by
    cases i with
    | zero =>
      cases hq
      cases ho'
      exact ⟨hr, hrun⟩
    | succ i => exact h.takes i q o' hq ho'
  tells i hi := by
    cases i with
    | zero => exact htells
    | succ i => exact h.tells i (by simpa using hi)
  whole_eq i hi := by
    cases i with
    | zero => rfl
    | succ i => exact h.whole_eq i (by simpa using hi)
  good i hi := by
    cases i with
    | zero =>
      obtain ⟨v, rfl⟩ := ho (List.ne_nil_of_length_pos (by simpa using hi))
      exact ⟨v, rfl⟩
    | succ i => exact h.good i (by simpa using hi)

/-- Run in turn, rules take their shares up to the first that fails. -/
theorem exists_inTurn (htarget : c.HasMade type target) {rules : List Rule}
    (hbears : ∀ r ∈ rules, c.Bears type r.slot)
    (hrules : ∀ r ∈ rules, ∃ s, Subject.IsComputeOf .synchronous r s ∧
      c.RecountsAtOnce source s (r.obtainSync source)) {m : Machine} (hm : c.holds m)
    (f : List Value → Prog) :
    ∃ inner share stage results, c.InTurn source target rules inner share stage results ∧
      stage 0 = m ∧ c.holds (stage results.length) ∧
      ((∃ vs : List Value, results = vs.map .ok ∧ vs.length = rules.length ∧
          (∀ v ∈ vs, v.isAwaitable = false) ∧
          m.run (Prog.sequence (rules.map fun r ↦ r.applySync source target) f) =
            (stage results.length).run (f vs)) ∨
        ∃ (vs : List Value) (e : Raised), results = vs.map .ok ++ [.error e] ∧
          m.run (Prog.sequence (rules.map fun r ↦ r.applySync source target) f) =
            (stage results.length, .settled (.error e))) := by
  have hordinary : target.IsOrdinary :=
    let ⟨_, _, _, hmade⟩ := htarget
    Action.isOrdinary_of_construct hmade
  induction rules generalizing m f with
  | nil =>
    exact ⟨_, _, fun _ ↦ m, [], inTurn_nil c source target [] default default _, rfl, hm,
      Or.inl ⟨[], rfl, rfl, nofun, rfl⟩⟩
  | cons r rest ih =>
    obtain ⟨⟨s, hs, hat⟩, hrest⟩ := List.forall_mem_cons.mp hrules
    obtain ⟨hbear, hbears⟩ := List.forall_mem_cons.mp hbears
    obtain ⟨m₁, A, hrun, hm₁, htells, hvalue⟩ := hat m hm
    obtain ⟨m₂, o, hcomplete, _⟩ := r.run_complete_plainly .synchronous
      (Mapper.unmistakable_ok hordinary.2) htells.unmistakable m₁
    have hholds : c.holds m₂ := hbear.complete htarget hm₁ hcomplete
    have happly : m.run (r.applySync source target) = (m₂, .settled o) := by
      generalize A.outcome = given at hrun hcomplete
      have hsame := Rule.run_applySync hrun target
      cases given <;> exact hsame.trans hcomplete
    rw [List.map_cons, Prog.sequence, Prog.andThen, Machine.run_bind, happly, Machine.goOn]
    cases o with
    | error e =>
      have hlast := (inTurn_nil c source target rest default default fun _ ↦ m₂).cons hs htells
        hcomplete fun hne ↦ absurd rfl hne
      exact ⟨_, _, _, _, hlast, rfl, hholds, Or.inr ⟨[], e, rfl, rfl⟩⟩
    | ok w =>
      have hw : w.isAwaitable = false := by
        obtain ⟨_, _, hagain, hvalues⟩ := r.exists_run_complete A.outcome hvalue hordinary.1 m₁
        cases hagain.symm.trans hcomplete
        exact hvalues w rfl
      obtain ⟨inner, share, stage, results, hturn, rfl, hend, hcase⟩ := ih hbears hrest hholds
        fun vs ↦ f (w :: vs)
      refine ⟨_, _, _, _, hturn.cons hs htells hcomplete fun _ ↦ ⟨w, rfl⟩, rfl, hend, ?_⟩
      rcases hcase with ⟨vs, rfl, hlength, hvs, hrest⟩ | ⟨vs, e, rfl, hrest⟩
      · exact Or.inl ⟨w :: vs, rfl, by simpa using hlength,
          List.forall_mem_cons.mpr ⟨hw, hvs⟩, hrest⟩
      · exact Or.inr ⟨w :: vs, e, rfl, hrest⟩

end Footing

namespace Mapper

/-- When all rules have ended well, the mapper gives its result. -/
theorem concluded_map_ok (mapper : Mapper) (target : Value) {vs : List Value}
    (h : ∀ v ∈ vs, failure? (.ok v) = none) :
    mapper.concluded target (vs.map .ok) = .ok (mapper.result target vs) := by
  have hnone : ∀ rules : List Rule, firstFailure? (rules.zip (vs.map Except.ok)) = none := by
    induction vs with
    | nil => simp [firstFailure?]
    | cons v rest ih =>
      obtain ⟨hv, hrest⟩ := List.forall_mem_cons.mp h
      intro rules
      cases rules with
      | nil => rfl
      | cons r rules =>
        rw [List.map_cons, List.zip_cons_cons, firstFailure?, hv]
        exact ih hrest rules
  rw [concluded, hnone]
  simp [List.filterMap_map, Function.comp_def, value?]

/-- When the last of the rules that were begun has failed, the mapper fails as it did. -/
theorem concluded_stopped (mapper : Mapper) (target : Value) {vs : List Value} (e : Raised)
    (h : ∀ v ∈ vs, failure? (.ok v) = none)
    (hlength : vs.length < mapper.rules.length) :
    mapper.concluded target (vs.map .ok ++ [.error e]) = .error e := by
  have hsome : ∀ rules : List Rule, vs.length < rules.length →
      ∃ r, firstFailure? (rules.zip (vs.map Except.ok ++ [.error e])) = some (r, e) := by
    clear hlength
    induction vs with
    | nil =>
      intro rules hlt
      obtain ⟨r, rest, rfl⟩ := List.exists_cons_of_length_pos hlt
      exact ⟨r, rfl⟩
    | cons v before ih =>
      obtain ⟨hv, hbefore⟩ := List.forall_mem_cons.mp h
      intro rules hlt
      obtain ⟨r, rest, rfl⟩ := List.exists_cons_of_length_pos (Nat.zero_lt_of_lt hlt)
      obtain ⟨q, hq⟩ := ih hbefore rest (by simpa using hlt)
      refine ⟨q, ?_⟩
      rw [List.map_cons, List.cons_append, List.zip_cons_cons, firstFailure?, hv]
      exact hq
  obtain ⟨r, hr⟩ := hsome mapper.rules hlength
  rw [concluded, hr]

end Mapper

namespace Footing

variable {c : Footing} {source : Value} {mapper : Mapper}

/-- There is an account of a synchronous call. -/
theorem recountsAtOnce_transformSync (hsource : source ≠ .null)
    (hmapper : c.Reliable mapper .synchronous)
    (hrules : ∀ r ∈ mapper.rules, ∃ s, Subject.IsComputeOf .synchronous r s ∧
      c.RecountsAtOnce source s (r.obtainSync source)) :
    c.RecountsAtOnce source (.call mapper .synchronous) (mapper.transformSync source) := by
  intro m hm
  obtain ⟨hmakes, hbears⟩ := hmapper.carries rfl
  have hbuilt := hmakes m hm
  rcases hmade : Action.construct mapper.target m.store with ⟨e | target, built⟩
  all_goals rw [hmade] at hbuilt
  · exact ⟨_, .unmade mapper .synchronous e, mapper.run_transformSync_error hsource hmade, hbuilt,
      .unmade hmapper hm hmade, nofun⟩
  · have htarget := Action.isOrdinary_of_construct hmade
    obtain ⟨inner, share, stage, results, hturn, hfirst, hend, hcase⟩ :=
      exists_inTurn ⟨m, built, hm, hmade⟩ hbears hrules hbuilt
        fun vs ↦ Prog.give (mapper.result target vs)
    have hplain := Account.unmistakable_results (Mapper.unmistakable_ok htarget.2)
      hturn.length_le hturn.takes fun i hi ↦ (hturn.tells i hi).unmistakable
    have hfill := mapper.run_transformSync hsource hmade
    have htells := fun hstop ↦ Account.Tells.inTurn share stage hmapper hmade hturn.length_le
      hturn.takes hturn.tells hfirst hturn.whole_eq hturn.good hstop
    refine ⟨stage results.length, .made mapper .synchronous target inner results, ?_⟩
    rcases hcase with ⟨vs, rfl, hlength, hvs, hrun⟩ | ⟨vs, e, rfl, hrun⟩
    · have houtcome := mapper.concluded_map_ok target fun v hv ↦
        (hplain _ (List.mem_map_of_mem hv)).failure?_ok
      have hmap := hfill.trans hrun
      refine ⟨?_, hend, htells (Or.inl (by simpa using hlength)), ?_⟩
      · rw [hmap, Machine.run_give, Account.outcome, houtcome]
      · rw [Account.outcome, houtcome]
        rintro v ⟨⟩
        exact Setting.isAwaitable_result mapper htarget.1 hvs
    · have houtcome := mapper.concluded_stopped target e
        (fun v hv ↦ (hplain _ (List.mem_append_left _ (List.mem_map_of_mem hv))).failure?_ok)
        (Nat.lt_of_succ_le (by simpa using hturn.length_le))
      refine ⟨?_, hend, htells (Or.inr ⟨e, by simp⟩), ?_⟩
      · rw [hfill.trans hrun, Account.outcome, houtcome]
      · rw [Account.outcome, houtcome]
        exact nofun

/-! ### Side by side -/

/-- How far a call of an asynchronous mapper has come: it has not begun; it has made its target, and
each rule has made its moves among the others; or it has ended, and there is an account of it. -/
inductive Phase (c : Footing) (source : Value) (mapper : Mapper) : Story → Proc → Prop
  | fresh : Phase c source mapper [] (.fresh (mapper.transform source))
  | gathering {m : Machine} {target : Value} {built : Store} {moves : List (ℕ × Machine × Machine)}
      {parts : List Proc} (hmade : Action.construct mapper.target m.store = (.ok target, built))
      (hlength : parts.length = mapper.rules.length)
      (hmoves : ∀ t ∈ moves, t.1 < mapper.rules.length)
      (hlived : ∀ i r p, mapper.rules[i]? = some r → parts[i]? = some p →
        c.Lived (r.apply source target) (Story.share moves i) p) :
    Phase c source mapper ((m, { m with store := built }) :: moves.map Prod.snd)
      (.joining false parts (mapper.whenAll target))
  | ended {A : Account} {ms : Story} (h : A.Tells c source (.call mapper .asynchronous) ms) :
    Phase c source mapper ms (.settled A.outcome)

/-- A rule whose compute can be told has taken its share when it has ended. -/
theorem Recounts.exists_share {r : Rule} {s : Subject} {target : Value}
    (hs : s.IsComputeOf .asynchronous r) (h : c.Recounts source s (r.evaluate source)) {ms : Story}
    {o : Outcome} (hlived : c.Lived (r.apply source target) ms (.settled o)) :
    ∃ (x : Share) (A : Account), x.Takes .asynchronous r target A.outcome o ∧
      A.Tells c source x.subject x.computed ∧ ms = x.whole := by
  rw [r.apply_eq] at hlived
  rcases hlived.of_bind c.steps_moves fun m o ↦ r.exists_run_finish target o m with
    ⟨q, _, _, hq⟩ | ⟨before, m, m₁, m', given, result, rfl, hcompute, hrun, hresult⟩
  · exact absurd hq.symm (q.bind_ne_settled _ o)
  · cases hresult
    obtain ⟨A, htells, rfl⟩ := h _ _ hcompute
    exact ⟨⟨s, before, m, m₁, m'⟩, A, ⟨hs, hrun⟩, htells, rfl⟩

/-- The first move of a call makes its target, and no rule has moved; or it ends the call. -/
theorem Phase.start (hsource : source ≠ .null) (hmapper : c.Reliable mapper .asynchronous)
    {m m' : Machine} {q : Proc} (hm : c.holds m)
    (hrun : m.run (mapper.transform source) = (m', q)) : c.Phase source mapper [(m, m')] q := by
  rcases hmade : Action.construct mapper.target m.store with ⟨e | target, built⟩
  · rw [mapper.run_transform_error hsource hmade] at hrun
    cases hrun
    exact .ended (.unmade hmapper hm hmade)
  · obtain ⟨b, hb⟩ := hmapper.made
    obtain ⟨hsnapshot, hne, _⟩ := Builder.mapperOf_eq_ok hb
    rw [mapper.run_transform (hsnapshot ▸ hne) hsource hmade] at hrun
    cases hrun
    refine .gathering hmade (by simp) (List.forall_mem_nil _) fun i r p hr hp ↦ ?_
    simp only [List.getElem?_map, hr, Option.map_some, Option.some.injEq] at hp
    exact hp ▸ .fresh

/-- A move of one rule among the others. -/
theorem Phase.part {m₀ : Machine} {target : Value} {built : Store}
    {moves : List (ℕ × Machine × Machine)} {before after : List Proc} {p q : Proc} {m m' : Machine}
    (hmade : Action.construct mapper.target m₀.store = (.ok target, built))
    (hlength : (before ++ p :: after).length = mapper.rules.length)
    (hmoves : ∀ t ∈ moves, t.1 < mapper.rules.length)
    (hlived : ∀ i r p', mapper.rules[i]? = some r → (before ++ p :: after)[i]? = some p' →
      c.Lived (r.apply source target) (Story.share moves i) p')
    (hm : c.holds m) (hpart : Machine.Move m p m' q) :
    c.Phase source mapper ((m₀, { m₀ with store := built }) ::
      (moves ++ [(before.length, m, m')]).map Prod.snd)
      (.joining false (before ++ q :: after) (mapper.whenAll target)) := by
  have hlt : before.length < mapper.rules.length := by
    rw [← hlength, List.length_append, List.length_cons]
    omega
  have hset : before ++ q :: after = (before ++ p :: after).set before.length q := by simp
  refine .gathering hmade (by simpa using hlength) ?_ fun i r p' hr hp' ↦ ?_
  · exact List.forall_mem_append.mpr ⟨hmoves, List.forall_mem_singleton.mpr hlt⟩
  · by_cases hi : before.length = i
    · subst hi
      rw [Story.share_append_self]
      rw [hset, List.getElem?_set_self (by simp)] at hp'
      cases hp'
      exact (hlived _ r p hr (by simp)).move hm hpart
    · rw [Story.share_append_of_ne moves hi]
      rw [hset, List.getElem?_set_ne hi] at hp'
      exact hlived i r p' hr hp'

/-- When all rules have ended, each has taken its share, and the call ends. -/
theorem Phase.join (hmapper : c.Reliable mapper .asynchronous)
    (hrules : ∀ r ∈ mapper.rules, ∃ s, Subject.IsComputeOf .asynchronous r s ∧
      c.Recounts source s (r.evaluate source))
    {m₀ : Machine} {target : Value} {built : Store} {moves : List (ℕ × Machine × Machine)}
    {os : List Outcome} {m m' : Machine} {q : Proc}
    (hmade : Action.construct mapper.target m₀.store = (.ok target, built))
    (hlength : os.length = mapper.rules.length) (hmoves : ∀ t ∈ moves, t.1 < mapper.rules.length)
    (hlived : ∀ i r p, mapper.rules[i]? = some r → (os.map Proc.settled)[i]? = some p →
      c.Lived (r.apply source target) (Story.share moves i) p)
    (hrun : m.run (mapper.whenAll target (some os)) = (m', q)) :
    c.Phase source mapper (((m₀, { m₀ with store := built }) :: moves.map Prod.snd) ++ [(m, m')])
      q := by
  have hshares : ∀ i, ∃ (x : Share) (A : Account), i < os.length →
      (∀ r o, mapper.rules[i]? = some r → os[i]? = some o →
        x.Takes .asynchronous r target A.outcome o) ∧
      A.Tells c source x.subject x.computed ∧ Story.share moves i = x.whole := by
    intro i
    by_cases hi : i < os.length
    · have hr := List.getElem?_eq_getElem (hlength ▸ hi)
      have ho := List.getElem?_eq_getElem hi
      obtain ⟨s, hs, hrecounts⟩ := hrules _ (List.mem_of_getElem? hr)
      obtain ⟨x, A, htakes, htells, hwhole⟩ := hrecounts.exists_share hs
        (hlived i _ (.settled os[i]) hr (by simp [ho]))
      refine ⟨x, A, fun _ ↦ ⟨fun r o hr' ho' ↦ ?_, htells, hwhole⟩⟩
      cases hr.symm.trans hr'
      cases ho.symm.trans ho'
      exact htakes
    · exact ⟨default, default, fun hlt ↦ absurd hlt hi⟩
  choose share inner hshares using hshares
  obtain ⟨_, hend, _⟩ := mapper.run_conclude target os m
  cases hend.symm.trans hrun
  exact .ended (A := .made mapper .asynchronous target inner os)
    (.gathered share hmapper hmade hlength
      (fun i r o hr ho ↦ (hshares i (List.getElem?_eq_some_iff.mp ho).1).1 r o hr ho)
      (fun i hi ↦ (hshares i hi).2.1) (hlength ▸ hmoves) (fun i hi ↦ (hshares i hi).2.2) hend)

/-- A move takes a call of an asynchronous mapper further. -/
theorem Phase.move (hsource : source ≠ .null) (hmapper : c.Reliable mapper .asynchronous)
    (hrules : ∀ r ∈ mapper.rules, ∃ s, Subject.IsComputeOf .asynchronous r s ∧
      c.Recounts source s (r.evaluate source)) {ms : Story} {q r : Proc} {m m' : Machine}
    (h : c.Phase source mapper ms q) (hm : c.holds m) (hmove : Machine.Move m q m' r) :
    c.Phase source mapper (ms ++ [(m, m')]) r := by
  cases h with
  | ended => exact absurd rfl (hmove.ne_settled _)
  | fresh =>
    cases hmove with
    | start hrun => exact .start hsource hmapper hm hrun
  | gathering hmade hlength hmoves hlived =>
    cases hmove with
    | part hpart => simpa using Phase.part hmade hlength hmoves hlived hm hpart
    | join hos hrun =>
      obtain rfl := Proc.outcomes?_eq_some_iff.mp hos
      rw [List.length_map] at hlength
      exact .join hmapper hrules hmade hlength hmoves hlived hrun

/-- There is an account of an asynchronous call that has ended. -/
theorem recounts_transform (hsource : source ≠ .null) (hmapper : c.Reliable mapper .asynchronous)
    (hrules : ∀ r ∈ mapper.rules, ∃ s, Subject.IsComputeOf .asynchronous r s ∧
      c.Recounts source s (r.evaluate source)) :
    c.Recounts source (.call mapper .asynchronous) (mapper.transform source) := by
  have hall : ∀ ms q, c.Lived (mapper.transform source) ms q → c.Phase source mapper ms q := by
    intro ms q hlived
    induction hlived with
    | fresh => exact .fresh
    | move _ hmove ih => exact ih.move hsource hmapper hrules hmove.1 hmove.2
  intro ms o hlived
  have hphase := hall ms _ hlived
  generalize hq : Proc.settled o = q at hphase
  cases hphase with
  | fresh | gathering => cases hq
  | @ended A _ htells => exact ⟨A, htells, (Proc.settled.inj hq).symm⟩

/-- What leaves a coroutine is what its body ended in, when that cannot be mistaken. -/
theorem Recounts.asCoroutine {s : Subject} {p : Prog} (h : c.Recounts source s p) :
    c.Recounts source s p.asCoroutine := by
  intro ms o hlived
  have hguarded : ∀ (m : Machine) o, ∃ m' result,
      m.run (Prog.guarded o) = (m', .settled result) := by
    intro m o
    obtain ⟨_, result, hrun, _⟩ := m.run_guarded o
    exact ⟨_, result, hrun⟩
  rcases hlived.of_bind c.steps_moves hguarded with
    ⟨q, _, _, hq⟩ | ⟨before, m, m₁, m', given, result, rfl, hbody, hrun, hresult⟩
  · exact absurd hq.symm (q.bind_ne_settled _ o)
  · obtain ⟨A, htells, rfl⟩ := h _ _ hbody
    rw [htells.unmistakable.guarded_eq, Machine.run_done] at hrun
    cases hresult
    cases hrun
    exact ⟨A, htells, rfl⟩

end Footing

/-! ### Mappers in layers -/

/-- There is an account of every call of a mapper in layers that has ended. -/
theorem Mapper.Layered.recounts {c : Footing} {source : Value}
    (hsource : source ≠ .null) {mapper : Mapper} {kind : Mapper.Kind}
    (h : Mapper.Layered c.Reliable (c.Leaf source) mapper kind) :
    (kind = .asynchronous → c.Recounts source (.call mapper .asynchronous)
      (mapper.transform source).asCoroutine) ∧
    (kind = .synchronous → c.RecountsAtOnce source (.call mapper .synchronous)
      (mapper.transformSync source)) := by
  induction h with
  | @intro mapper kind inner hadmits hleaf hkind hcompute _ ih =>
    constructor
    · rintro rfl
      refine (Footing.recounts_transform hsource hadmits fun r hr ↦ ?_).asCoroutine
      cases hinner : inner r with
      | none => exact ⟨.leaf .asynchronous r, ⟨rfl, rfl⟩, (hleaf r hr hinner).recounts⟩
      | some q =>
        obtain ⟨inside, k⟩ := q
        have hr' : r.compute = inside.compute k := hcompute r hr _ hinner
        refine ⟨.call inside k, hr', ?_⟩
        cases k with
        | asynchronous =>
          have hevaluate : r.evaluate source = (inside.transform source).asCoroutine := by
            rw [Rule.evaluate, hr']
            rfl
          exact hevaluate ▸ (ih r hr _ hinner).1 rfl
        | synchronous =>
          have hevaluate : r.evaluate source =
              (inside.transformSync source).andThen Compute.await := by
            rw [Rule.evaluate, hr']
            rfl
          exact hevaluate ▸ ((ih r hr _ hinner).2 rfl).andThen_await.recounts
    · rintro rfl
      refine Footing.recountsAtOnce_transformSync hsource hadmits fun r hr ↦ ?_
      cases hinner : inner r with
      | none => exact ⟨.leaf .synchronous r, ⟨rfl, rfl⟩, (hleaf r hr hinner).recountsAtOnce⟩
      | some q =>
        obtain ⟨inside, k⟩ := q
        obtain rfl : k = .synchronous := (hkind r hr _ hinner).elim id id
        have hr' : r.compute = inside.compute .synchronous := hcompute r hr _ hinner
        have hobtain : r.obtain source = inside.transformSync source := by
          rw [Rule.obtain, hr']
          rfl
        have hat := (ih r hr _ hinner).2 rfl
        exact ⟨.call inside .synchronous, hr', (hobtain ▸ hat : c.RecountsAtOnce source _
          (r.obtain source)).obtainSync⟩

namespace Account

end Account

namespace Sample

/-- A fax number, which the source does not have. -/
def faxOf : Compute := .plain fun source ↦ Prog.ofAction (Action.readAttribute source "fax")

/-- A builder of contacts that reads them from the source. -/
def cardBuilder : Builder :=
  ⟨2, "Contact", "Contact",
    [⟨.field, ⟨⟨["phone"]⟩, ⟨2, 0⟩⟩, phoneOf⟩, ⟨.field, ⟨⟨["mail"]⟩, ⟨2, 1⟩⟩, faxOf⟩],
    [("target.phone", ⟨["phone"]⟩), ("target.mail", ⟨["mail"]⟩)]⟩

/-- Its synchronous mapper as a compute. -/
def cardOf : Compute := cardBuilder.snapshot.compute .synchronous

/-- The types and the source are as they are. -/
abbrev onSource : Footing := held.nested held_isSteady ∅

theorem onSource_holds {m : Machine} (h : held.holds m) : onSource.holds m := ⟨h, nofun⟩

theorem reliable {b : Builder} {kind : Mapper.Kind} {mapper : Mapper}
    (hb : b.mapperOf kind = .ok mapper)
    (hmade : ∀ s : Store, s.types = [contactType, personType] →
      ∃ v s', Action.construct mapper.target s = (.ok v, s'))
    (hcarries : kind = .synchronous → onSource.Carries mapper) : onSource.Reliable mapper kind := by
  refine ⟨⟨b, hb⟩, fun m e s hm h ↦ ?_, hcarries⟩
  obtain ⟨v, s', hok⟩ := hmade m.store hm.1.1
  cases hok.symm.trans h

/-- A compute that ends at once is no mapper if it leaves the log alone. -/
theorem leaf_atOnce {c : Footing} {source : Value} {r : Rule}
    (h : ∀ m, c.holds m → ∃ m' o, m.run (r.evaluate source) = (m', .settled o) ∧
      m'.store.log = m.store.log ∧ Mapper.Unmistakable o) : c.Leaf source .asynchronous r := by
  refine .of_good (fun q ↦ q = .fresh (r.evaluate source) ∨
    ∃ o, q = .settled o ∧ Mapper.Unmistakable o) (Or.inl rfl) ?_ ?_
  · rintro m m' q q' hm (rfl | ⟨o, rfl, _⟩) hmove
    · cases hmove with
      | start hrun =>
        obtain ⟨_, o, hend, hlog, ho⟩ := h m hm
        cases hend.symm.trans hrun
        exact ⟨.of_log_eq hlog, Or.inr ⟨o, rfl, ho⟩⟩
    · exact absurd rfl (hmove.ne_settled _)
  · rintro o (hq | ⟨_, hq, ho⟩) <;> cases hq
    exact ho

theorem leaf_slow {c : Footing} {source : Value} {r : Rule} (hr : r.compute = slow) :
    c.Leaf source .asynchronous r := by
  have hevaluate : r.evaluate source =
      (Prog.sleep 100 fun _ ↦ Prog.give (.text "last")).asCoroutine := by
    rw [Rule.evaluate, hr]
    rfl
  refine .of_good (fun q ↦ q = .fresh (r.evaluate source) ∨
    (∃ time, q = .sleeping time fun _ ↦ (Prog.give (.text "last")).bind Prog.guarded) ∨
    q = .settled (.ok (.text "last"))) (Or.inl rfl) ?_ ?_
  · rw [hevaluate]
    rintro m m' q q' _ (rfl | ⟨time, rfl⟩ | rfl) hmove
    · cases hmove with
      | start hrun =>
        cases hrun
        exact ⟨.of_log_eq rfl, Or.inr (Or.inl ⟨_, rfl⟩)⟩
    · cases hmove with
      | wake _ hrun =>
        cases hrun
        exact ⟨.of_log_eq rfl, Or.inr (Or.inr rfl)⟩
    · exact absurd rfl (hmove.ne_settled _)
  · rintro o (hq | ⟨_, hq⟩ | hq) <;> cases hq
    exact Mapper.unmistakable_ok rfl

/-- A plain function that ends at once where the source is as it is is no mapper. -/
theorem leaf_reading {g : Value → Prog} {r : Rule} (hr : r.compute = .plain g)
    (h : ∀ m, held.holds m → ∃ m' o, m.run (g (.record 0 "Contact")) = (m', .settled o) ∧
      held.holds m' ∧ m'.store.log = m.store.log ∧ Mapper.Unmistakable o ∧
      ∀ v, o = .ok v → v.isAwaitable = false) :
    onSource.Leaf (.record 0 "Contact") .synchronous r := by
  intro m hm
  obtain ⟨m', o, hrun, hm', hlog, ho, hvalue⟩ := h m hm.1
  have hobtain : r.obtain (.record 0 "Contact") = g (.record 0 "Contact") := by
    rw [Rule.obtain, hr]
    rfl
  refine ⟨m', o, ?_, onSource_holds hm', .of_log_eq hlog, ho⟩
  rw [Rule.obtainSync, hobtain, Prog.andThen, Machine.run_bind, hrun, Machine.goOn]
  cases o with
  | error e => rfl
  | ok v =>
    dsimp only
    rw [hvalue v rfl]
    rfl

theorem leaf_phoneOf {r : Rule} (hr : r.compute = phoneOf) :
    onSource.Leaf (.record 0 "Contact") .synchronous r := by
  refine leaf_reading hr fun m hm ↦ ⟨m, .ok (.text "1"),
    execWith_phoneOf (Machine.exec (Machine.depthLimit - 1)) hm, hm, rfl,
    Mapper.unmistakable_ok rfl, ?_⟩
  rintro v ⟨⟩
  rfl

/-- The source has no fax number. -/
theorem leaf_faxOf {r : Rule} (hr : r.compute = faxOf) :
    onSource.Leaf (.record 0 "Contact") .synchronous r := by
  refine leaf_reading hr fun m hm ↦ ?_
  have hfax : m.store.field? 0 "fax" = none := by
    rw [Store.field?, hm.2]
    rfl
  have htype : m.store.type? "Contact" = some contactType := by
    rw [Store.type?, hm.1]
    rfl
  have hread : Action.readAttribute (.record 0 "Contact") "fax" m.store =
      Action.refuse (.noAttribute "Contact" "fax") m.store := by
    simp only [Action.readAttribute, hfax, htype]
    rfl
  rw [Machine.run_ofAction, Machine.act, hread]
  refine ⟨_, _, rfl, hm, rfl, Mapper.unmistakable_error ?_, fun _ h ↦ by cases h⟩
  rintro ⟨args, hargs⟩
  cases hargs

section Layers

variable {admits : Mapper → Mapper.Kind → Prop} {leaf : Mapper.Kind → Rule → Prop}

/-- One rule, known by its key, has a mapper in layers as its compute, and the others are leaves. -/
theorem layered_at (key : String) {inner mapper : Mapper} {k kind : Mapper.Kind}
    (hadmits : admits mapper kind)
    (hrules : ∀ r ∈ mapper.rules,
      r.key = key ∧ r.compute = inner.compute k ∨ r.key ≠ key ∧ leaf kind r)
    (hkind : k = kind ∨ k = .synchronous) (hinner : Mapper.Layered admits leaf inner k) :
    Mapper.Layered admits leaf mapper kind := by
  have hat : ∀ (r : Rule) q, (if r.key = key then some (inner, k) else none) = some q →
      r.key = key ∧ q = (inner, k) := by
    intro r q hq
    split_ifs at hq with hkey
    exact ⟨hkey, (Option.some.inj hq).symm⟩
  refine .intro (fun r ↦ if r.key = key then some (inner, k) else none) hadmits
    (fun r hr hnone ↦ ?_) (fun r _ q hq ↦ ?_) (fun r hr q hq ↦ ?_) fun r _ q hq ↦ ?_
  · have hkey : r.key ≠ key := fun heq ↦ by simp [heq] at hnone
    exact (hrules r hr).elim (fun h ↦ absurd h.1 hkey) And.right
  · obtain ⟨_, rfl⟩ := hat r q hq
    exact hkind
  · obtain ⟨hkey, rfl⟩ := hat r q hq
    exact (hrules r hr).elim And.right fun h ↦ absurd hkey h.1
  · obtain ⟨_, rfl⟩ := hat r q hq
    exact hinner

/-- The mapper of persons has that of contacts as the compute of its second rule. -/
theorem layered_person {phone : Compute}
    (hcontact : Mapper.Layered admits leaf (contactBuilder phone).snapshot .asynchronous)
    (hperson : admits (personBuilder phone).snapshot .asynchronous)
    (hname : leaf .asynchronous nameRule) :
    Mapper.Layered admits leaf (personBuilder phone).snapshot .asynchronous :=
  layered_at "target.contact" hperson
    (List.forall_mem_cons.mpr ⟨Or.inr ⟨by decide, hname⟩,
      List.forall_mem_singleton.mpr (Or.inl ⟨rfl, rfl⟩)⟩) (Or.inl rfl) hcontact

end Layers

theorem carries_card : onSource.Carries cardBuilder.snapshot := by
  refine ⟨fun m hm ↦ onSource_holds (held.stable hm.1
    ((Action.sameBelow_construct _ m.store).mono (held.base_le hm.1))), ?_⟩
  have hbears : ∀ name, Text.isSegment name = true → onSource.Bears "Contact" ⟨[name]⟩ :=
    fun name hname ↦ @Surroundings.bears_nested held held_isSteady "Contact" ⟨[name]⟩ ∅
      (List.forall_mem_singleton.mpr hname) [] name rfl nofun nofun
  exact List.forall_mem_cons.mpr ⟨hbears "phone" rfl,
    List.forall_mem_singleton.mpr (hbears "mail" rfl)⟩

theorem layered_card :
    Mapper.Layered onSource.Reliable (onSource.Leaf (.record 0 "Contact")) cardBuilder.snapshot
      .synchronous :=
  .intro (fun _ ↦ none)
    (reliable (b := cardBuilder) rfl (fun _ hs ↦ ⟨_, _, construct_contact hs⟩) fun _ ↦ carries_card)
    (List.forall_mem_cons.mpr ⟨fun _ ↦ leaf_phoneOf rfl,
      List.forall_mem_singleton.mpr fun _ ↦ leaf_faxOf rfl⟩) nofun nofun nofun

/-- The synchronous mapper computes the phone of a contact, and the asynchronous mapper of contacts
the contact of a person. -/
theorem layered_cards :
    Mapper.Layered onSource.Reliable (onSource.Leaf (.record 0 "Contact"))
      (personBuilder cardOf).snapshot .asynchronous :=
  layered_person
    (layered_at "target.phone"
      (reliable (b := contactBuilder cardOf) rfl (fun _ hs ↦ ⟨_, _, construct_contact hs⟩) nofun)
      (List.forall_mem_cons.mpr ⟨Or.inl ⟨rfl, rfl⟩,
        List.forall_mem_singleton.mpr (Or.inr ⟨nofun, leaf_slow rfl⟩)⟩)
      (Or.inr rfl) layered_card)
    (reliable (b := personBuilder cardOf) rfl (fun _ hs ↦ ⟨_, _, construct_person hs⟩) nofun)
    (leaf_atOnce fun _ _ ↦ ⟨_, _, rfl, rfl, Mapper.unmistakable_ok rfl⟩)

/-- A further move, on the machine that the last one left, at the same time or later. -/
theorem lived_further {p : Prog} {ms : Story} {m₀ m m' : Machine} {q r : Proc}
    (h : onSource.Lived p (ms ++ [(m₀, m)]) q) (now : ℕ) (hm : onSource.holds (m.later now))
    (hmove : Machine.Move (m.later now) q m' r) :
    onSource.Lived p (ms ++ [(m₀, m)] ++ [(m.later now, m')]) r := h.move hm hmove

/-- The call of the mapper of persons. -/
def personCall : Prog :=
  ((personBuilder cardOf).snapshot.function .asynchronous).run [.record 0 "Contact"]

theorem move_first {m m' : Machine} {p q : Proc} (h : Machine.Move m p m' q) (cancelled : Bool)
    (after : List Proc) (k : Option (List Outcome) → Prog) :
    Machine.Move m (.joining cancelled (p :: after) k) m' (.joining cancelled (q :: after) k) :=
  (Machine.Move.part h : Machine.Move m (.joining cancelled ([] ++ p :: after) k) m' _)

theorem move_second {m m' : Machine} {p q : Proc} (h : Machine.Move m p m' q) (cancelled : Bool)
    (first : Proc) (after : List Proc) (k : Option (List Outcome) → Prog) :
    Machine.Move m (.joining cancelled (first :: p :: after) k) m'
      (.joining cancelled (first :: q :: after) k) :=
  (Machine.Move.part h : Machine.Move m (.joining cancelled ([first] ++ p :: after) k) m' _)

/-- The phone fails at once, while the mail is still asleep. When both have ended, the contact
fails as the phone did, and the person as the contact did. -/
theorem exists_lived_person : ∃ ms e, onSource.Lived personCall ms (.settled (.error e)) ∧
    e.fault = .operand (.noAttribute "Contact" "fax") ∧ (Story.warnings ms).length = 2 := by
  have h₁ : onSource.Lived personCall ([] ++ [(readMachine, (readMachine.run personCall).1)])
      (.joining false [_, _] _) :=
    Story.Follows.fresh.move ⟨onSource_holds ⟨rfl, rfl⟩, .start rfl⟩
  have h₂ := lived_further h₁ 0 (r := .joining false [.settled (.ok _), _] _)
    (onSource_holds ⟨rfl, rfl⟩) (move_first (.start rfl) _ _ _)
  have h₃ := lived_further h₂ 0
    (r := .joining false [.settled (.ok _), .joining false [_, _] _] _)
    (onSource_holds ⟨rfl, rfl⟩) (move_second (.start rfl) _ _ _ _)
  have h₄ := lived_further h₃ 0
    (r := .joining false [.settled (.ok _), .joining false [.settled (.error _), _] _] _)
    (onSource_holds ⟨rfl, rfl⟩) (move_second (move_first (.start rfl) _ _ _) _ _ _ _)
  have h₅ := lived_further h₄ 0 (onSource_holds ⟨rfl, rfl⟩)
    (move_second (move_second (q := .sleeping 100 _) (.start rfl) _ _ _ _) _ _ _ _)
  have h₆ := lived_further h₅ 100 (onSource_holds ⟨rfl, rfl⟩)
    (move_second (move_second (q := .settled (.ok _)) (.wake le_rfl rfl) _ _ _ _) _ _ _ _)
  have h₇ := lived_further h₆ 100 (r := .joining false [.settled (.ok _), .settled (.error _)] _)
    (onSource_holds ⟨rfl, rfl⟩)
    (move_second (q := .settled (.error _)) (.join rfl rfl) false _ [] _)
  exact ⟨_, _, lived_further h₇ 100 (r := .settled (.error _)) (onSource_holds ⟨rfl, rfl⟩)
    (.join rfl rfl), rfl, rfl⟩

end Sample

end Recast
