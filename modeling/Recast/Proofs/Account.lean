import Recast.Proofs.Story

/-!
Accounts of calls. An account of a call of a mapper tells from its story what each compute gave and
what became of it, and has an account of each inner mapper (`Account.Tells`): the moves of the call
are those of its rules, in some order, after the one that makes the target and before the one that
concludes. From an account it can be read where a failure comes from (`Account.Leads`,
`Account.Tells.exists_leads`) and which calls had a rule that failed, each of which has warned of it
(`Episode.warning?`, `Account.Tells.warnings`).
-/

set_option autoImplicit false

namespace Recast

/-! ### Computes that are no mappers -/

/-- The compute of a rule that is no mapper warns of no failed rule, returns no fault object and
raises nothing that is mistaken for the end of an iteration. In a mapper that waits for nothing it
ends at once. -/
def Footing.Leaf (c : Footing) (source : Value) : Mapper.Kind → Rule → Prop
  | .asynchronous, r => ∀ ms q, c.Lived (r.evaluate source) ms q →
      (∀ t ∈ ms, t.1.Warns t.2 []) ∧ ∀ o, q = .settled o → Mapper.Unmistakable o
  | .synchronous, r => ∀ m, c.holds m → ∃ m' o, m.run (r.obtainSync source) = (m', .settled o) ∧
      c.holds m' ∧ m.Warns m' [] ∧ Mapper.Unmistakable o

/-- A compute that is in a good state wherever it stands, and that from a good state moves to a good
one without a warning of a failed rule, is no mapper. -/
theorem Footing.Leaf.of_good {c : Footing} {source : Value} {r : Rule}
    (good : Proc → Prop) (hstart : good (.fresh (r.evaluate source)))
    (hgood : ∀ m m' q q', c.holds m → good q → Machine.Move m q m' q' →
      m.Warns m' [] ∧ good q')
    (hended : ∀ o, good (.settled o) → Mapper.Unmistakable o) : c.Leaf source .asynchronous r := by
  have hall : ∀ ms q, c.Lived (r.evaluate source) ms q →
      (∀ t ∈ ms, t.1.Warns t.2 []) ∧ good q := by
    intro ms q hlived
    induction hlived with
    | fresh => exact ⟨nofun, hstart⟩
    | move _ hmove ih =>
      obtain ⟨hquiet, hnext⟩ := hgood _ _ _ _ hmove.1 ih.2 hmove.2
      exact ⟨List.forall_mem_append.mpr ⟨ih.1, List.forall_mem_singleton.mpr hquiet⟩, hnext⟩
  exact fun ms q hlived ↦ ⟨(hall ms q hlived).1, fun o ho ↦ hended o (ho ▸ (hall ms q hlived).2)⟩

/-- In a mapper of a kind, the compute of a rule has made the moves of a story and has ended. -/
def Footing.Computed (c : Footing) (source : Value) (r : Rule) (ms : Story)
    (o : Outcome) : Mapper.Kind → Prop
  | .asynchronous => c.Lived (r.evaluate source) ms (.settled o)
  | .synchronous => ∃ m m', c.holds m ∧ ms = [(m, m')] ∧
      m.run (r.obtainSync source) = (m', .settled o)

/-- A mapper that a builder has made, of targets that raise nothing when they are made that is
mistaken for the end of an iteration. If it waits for nothing, then neither making its targets nor
filling them takes anything away that is relied on. -/
structure Footing.Reliable (c : Footing) (mapper : Mapper) (kind : Mapper.Kind) : Prop where
  made : ∃ b : Builder, b.mapperOf kind = .ok mapper
  raises : ∀ m e s, c.holds m → Action.construct mapper.target m.store = (.error e, s) →
    ¬ e.StopsIteration
  carries : kind = .synchronous → c.Carries mapper

/-! ### Accounts -/

/-- What a compute did: it is no mapper and ended in an outcome, or it is a mapper whose target
could not be made, or one that made its target, with an account of the compute of each rule that was
begun and with what became of the rules. -/
inductive Account where
  | leaf (given : Outcome)
  | unmade (mapper : Mapper) (kind : Mapper.Kind) (e : Raised)
  | made (mapper : Mapper) (kind : Mapper.Kind) (target : Value) (inner : ℕ → Account)
      (results : List Outcome)

instance : Inhabited Account := ⟨.leaf (.ok .null)⟩

/-- A call of a mapper, with what became of the rules that were begun. -/
structure Episode where
  mapper : Mapper
  kind : Mapper.Kind
  results : List Outcome

namespace Episode

/-- A rule that ended in a fault, with the fault. -/
def fault? : Rule × Outcome → Option (Rule × Raised)
  | (r, .error e) => some (r, e)
  | (_, .ok _) => none

/-- The earliest registered rule that failed, with its failure. -/
def failed? (x : Episode) : Option (Rule × Raised) :=
  (x.mapper.rules.zip x.results).findSome? fault?

/-- The warning of a call: an asynchronous mapper warns if a rule of it failed. -/
def warning? (x : Episode) : Option Log.Entry :=
  match x.kind with
  | .asynchronous => x.failed?.map fun f ↦ Mapper.failureEntry x.mapper.name f.1 f.2
  | .synchronous => none

/-- The call is one of an asynchronous mapper, and some rule of it has failed. -/
def isFailing (x : Episode) : Bool :=
  match x.kind with
  | .asynchronous => x.results.any fun o ↦ !o.isOk
  | .synchronous => false

/-- The calls that warn are those of asynchronous mappers in which some rule has failed. -/
theorem isSome_warning? (x : Episode) (hlength : x.results.length ≤ x.mapper.rules.length) :
    x.warning?.isSome = x.isFailing := by
  obtain ⟨mapper, kind, results⟩ := x
  cases kind with
  | synchronous => rfl
  | asynchronous =>
    simp only [warning?, failed?, isFailing, Option.isSome_map] at hlength ⊢
    generalize mapper.rules = rules at hlength
    induction results generalizing rules with
    | nil => simp
    | cons o rest ih =>
      obtain ⟨r, rules, rfl⟩ := List.exists_cons_of_length_pos (Nat.zero_lt_of_lt hlength)
      rw [List.zip_cons_cons, List.findSome?_cons, List.any_cons]
      cases o with
      | error e => rfl
      | ok v => exact ih rules (by simpa using hlength)

theorem warning?_of_nil (mapper : Mapper) (kind : Mapper.Kind) :
    warning? ⟨mapper, kind, []⟩ = none := by
  cases kind <;> simp [warning?, failed?]

end Episode

namespace Account

/-- What the compute ended in. -/
def outcome : Account → Outcome
  | leaf given => given
  | unmade _ _ e => .error e
  | made mapper _ target _ results => mapper.concluded target results

/-- The calls of mappers of which the account tells. -/
def episodes : Account → List Episode
  | leaf _ => []
  | unmade mapper kind _ => [⟨mapper, kind, []⟩]
  | made mapper kind _ inner results =>
    ⟨mapper, kind, results⟩ :: (List.range results.length).flatMap fun i ↦ (inner i).episodes

/-- Going from each mapper to its earliest registered rule that failed leads to where a fault was
raised: by a compute that is no mapper, in the making of a target, or in a write. -/
inductive Leads : Account → List ℕ → Raised → Prop
  | leaf {e : Raised} : Leads (leaf (.error e)) [] e
  | unmade {mapper : Mapper} {kind : Mapper.Kind} {e : Raised} : Leads (unmade mapper kind e) [] e
  | unwritten {mapper : Mapper} {kind : Mapper.Kind} {target v : Value} {inner : ℕ → Account}
      {results : List Outcome} {i : ℕ} {e : Raised} (hi : results[i]? = some (.error e))
      (hbefore : ∀ j < i, ∃ w, results[j]? = some (.ok w)) (hgiven : (inner i).outcome = .ok v) :
    Leads (made mapper kind target inner results) [i] e
  | inner {mapper : Mapper} {kind : Mapper.Kind} {target : Value} {inner : ℕ → Account}
      {results : List Outcome} {i : ℕ} {path : List ℕ} {failure given e : Raised}
      (hi : results[i]? = some (.error failure))
      (hbefore : ∀ j < i, ∃ w, results[j]? = some (.ok w))
      (hgiven : (inner i).outcome = .error given) (h : Leads (inner i) path e) :
    Leads (made mapper kind target inner results) (i :: path) e

/-- It leads to one place only. -/
theorem Leads.unique {A : Account} {path path' : List ℕ} {e e' : Raised} (h : A.Leads path e)
    (h' : A.Leads path' e') : path = path' ∧ e = e' := by
  -- two positions that come earliest are the same
  have hsame : ∀ {results : List Outcome} {i j : ℕ} {e e' : Raised},
      results[i]? = some (.error e) → (∀ k < i, ∃ w, results[k]? = some (.ok w)) →
      results[j]? = some (.error e') → (∀ k < j, ∃ w, results[k]? = some (.ok w)) → i = j := by
    intro results i j e e' hi hbefore hj hbefore'
    rcases Nat.lt_trichotomy i j with hlt | heq | hlt
    · obtain ⟨w, hw⟩ := hbefore' i hlt
      cases hw.symm.trans hi
    · exact heq
    · obtain ⟨w, hw⟩ := hbefore j hlt
      cases hw.symm.trans hj
  induction h generalizing path' e' with
  | leaf | unmade =>
    cases h'
    exact ⟨rfl, rfl⟩
  | unwritten hi hbefore hgiven =>
    cases h' with
    | unwritten hj hbefore' _ =>
      obtain rfl := hsame hi hbefore hj hbefore'
      cases hi.symm.trans hj
      exact ⟨rfl, rfl⟩
    | inner hj hbefore' hgiven' _ =>
      obtain rfl := hsame hi hbefore hj hbefore'
      cases hgiven.symm.trans hgiven'
  | inner hi hbefore hgiven _ ih =>
    cases h' with
    | unwritten hj hbefore' hgiven' =>
      obtain rfl := hsame hi hbefore hj hbefore'
      cases hgiven.symm.trans hgiven'
    | inner hj hbefore' _ h' =>
      obtain rfl := hsame hi hbefore hj hbefore'
      obtain ⟨rfl, rfl⟩ := ih h'
      exact ⟨rfl, rfl⟩

end Account

/-- What an account is of: a compute that is no mapper, or a call of a mapper. -/
inductive Subject where
  | leaf (kind : Mapper.Kind) (r : Rule)
  | call (mapper : Mapper) (kind : Mapper.Kind)

instance : Inhabited Subject := ⟨.call ⟨"", "", []⟩ .synchronous⟩

/-- The subject is the compute of a rule, as a mapper of a kind uses it. -/
def Subject.IsComputeOf (kind : Mapper.Kind) (r : Rule) : Subject → Prop
  | leaf k q => k = kind ∧ q = r
  | call mapper k => r.compute = mapper.compute k

/-- The share of a rule in a call: the moves of its compute, in the last of which the rule was
completed. -/
structure Share where
  subject : Subject
  before : Story
  start : Machine
  mid : Machine
  stop : Machine
  deriving Inhabited

namespace Share

/-- The moves of the compute. -/
def computed (x : Share) : Story := x.before ++ [(x.start, x.mid)]

/-- The moves of the rule. -/
def whole (x : Share) : Story := x.before ++ [(x.start, x.stop)]

/-- The share is that of a rule whose compute gave an outcome that became a result. -/
structure Takes (x : Share) (kind : Mapper.Kind) (r : Rule) (target : Value)
    (given result : Outcome) : Prop where
  subject : x.subject.IsComputeOf kind r
  completed : x.mid.run (r.complete target kind given) = (x.stop, .settled result)

end Share

/-- The account tells the story of a compute in full. The moves of an asynchronous call are the one
in which the target is made, the moves of the rules, and one in which the mapper concludes. A
synchronous call is a single move, in which the rules take turns up to the first that fails. -/
inductive Account.Tells (c : Footing) (source : Value) : Subject → Account → Story → Prop
  | leaf {kind : Mapper.Kind} {r : Rule} {ms : Story} {o : Outcome} (hleaf : c.Leaf source kind r)
      (h : c.Computed source r ms o kind) : Tells c source (.leaf kind r) (.leaf o) ms
  | unmade {mapper : Mapper} {kind : Mapper.Kind} {m : Machine} {e : Raised} {s : Store}
      (hmapper : c.Reliable mapper kind) (hm : c.holds m)
      (hmade : Action.construct mapper.target m.store = (.error e, s)) :
    Tells c source (.call mapper kind) (.unmade mapper kind e) [(m, { m with store := s })]
  | gathered {mapper : Mapper} {m m₁ m₂ : Machine} {target : Value} {built : Store}
      {moves : List (ℕ × Machine × Machine)} {inner : ℕ → Account} {results : List Outcome}
      (share : ℕ → Share) (hmapper : c.Reliable mapper .asynchronous)
      (hmade : Action.construct mapper.target m.store = (.ok target, built))
      (hlength : results.length = mapper.rules.length)
      (htakes : ∀ i r o, mapper.rules[i]? = some r → results[i]? = some o →
        (share i).Takes .asynchronous r target (inner i).outcome o)
      (hinner : ∀ i < results.length, Tells c source (share i).subject (inner i) (share i).computed)
      (hmoves : ∀ t ∈ moves, t.1 < results.length)
      (hshare : ∀ i < results.length, Story.share moves i = (share i).whole)
      (hend : m₁.run (mapper.conclude target results) =
        (m₂, .settled (mapper.concluded target results))) :
    Tells c source (.call mapper .asynchronous) (.made mapper .asynchronous target inner results)
      ((m, { m with store := built }) :: (moves.map Prod.snd ++ [(m₁, m₂)]))
  | inTurn {mapper : Mapper} {m : Machine} {target : Value} {built : Store}
      {inner : ℕ → Account} {results : List Outcome} (share : ℕ → Share) (stage : ℕ → Machine)
      (hmapper : c.Reliable mapper .synchronous)
      (hmade : Action.construct mapper.target m.store = (.ok target, built))
      (hlength : results.length ≤ mapper.rules.length)
      (htakes : ∀ i r o, mapper.rules[i]? = some r → results[i]? = some o →
        (share i).Takes .synchronous r target (inner i).outcome o)
      (hinner : ∀ i < results.length, Tells c source (share i).subject (inner i) (share i).computed)
      (hfirst : stage 0 = { m with store := built })
      (hshare : ∀ i < results.length, (share i).whole = [(stage i, stage (i + 1))])
      (hgood : ∀ i, i + 1 < results.length → ∃ v, results[i]? = some (.ok v))
      (hstop : results.length = mapper.rules.length ∨ ∃ e, results.getLast? = some (.error e)) :
    Tells c source (.call mapper .synchronous) (.made mapper .synchronous target inner results)
      [(m, stage results.length)]

/-! ### What an account tells -/

namespace Mapper

variable {rules : List Rule} {results : List Outcome}

/-- Among outcomes that cannot be mistaken, the earliest failure is the earliest fault. -/
theorem firstFailure?_zip_eq (hresults : ∀ o ∈ results, Unmistakable o) :
    firstFailure? (rules.zip results) = (rules.zip results).findSome? Episode.fault? := by
  induction rules generalizing results with
  | nil => rfl
  | cons r rest ih =>
    cases results with
    | nil => rfl
    | cons o os =>
      obtain ⟨ho, hos⟩ := List.forall_mem_cons.mp hresults
      rw [List.zip_cons_cons, firstFailure?, List.findSome?_cons, ih hos]
      cases o with
      | error e => rfl
      | ok v =>
        rw [ho.failure?_ok]
        rfl

theorem exists_of_firstFailure? {r : Rule} {e : Raised}
    (hresults : ∀ o ∈ results, Unmistakable o)
    (h : firstFailure? (rules.zip results) = some (r, e)) :
    ∃ i : ℕ, rules[i]? = some r ∧ results[i]? = some (.error e) ∧
      ∀ j < i, ∃ w, results[j]? = some (.ok w) := by
  induction rules generalizing results with
  | nil => cases h
  | cons q rest ih =>
    cases results with
    | nil => cases h
    | cons o os =>
      obtain ⟨ho, hos⟩ := List.forall_mem_cons.mp hresults
      rw [List.zip_cons_cons, firstFailure?] at h
      cases o with
      | error e' =>
        cases h
        exact ⟨0, rfl, rfl, fun j hj ↦ absurd hj (Nat.not_lt_zero j)⟩
      | ok v =>
        rw [ho.failure?_ok] at h
        obtain ⟨i, hr, hi, hbefore⟩ := ih hos h
        refine ⟨i + 1, hr, hi, fun j hj ↦ ?_⟩
        cases j with
        | zero => exact ⟨v, rfl⟩
        | succ j => exact hbefore j (by omega)

theorem unmistakable_concluded {mapper : Mapper} {target : Value}
    (htarget : Unmistakable (.ok target)) (hresults : ∀ o ∈ results, Unmistakable o) :
    Unmistakable (mapper.concluded target results) := by
  rw [concluded]
  cases hfirst : firstFailure? (mapper.rules.zip results) with
  | some failed =>
    obtain ⟨i, _, hi, _⟩ := exists_of_firstFailure? hresults hfirst
    exact hresults _ (List.mem_of_getElem? hi)
  | none =>
    dsimp only
    rw [result]
    split_ifs
    · cases hvalues : results.filterMap value? with
      | nil => exact htarget
      | cons v rest =>
        have hv : v ∈ results.filterMap value? := hvalues ▸ List.mem_cons_self
        obtain ⟨o, ho, hvalue⟩ := List.mem_filterMap.mp hv
        cases o with
        | error e => cases hvalue
        | ok w =>
          cases hvalue
          exact hresults _ ho
    · exact htarget

end Mapper

namespace Account

variable {c : Footing} {source : Value} {subject : Subject} {A : Account} {ms : Story}

/-- The results of rules whose computes ended in nothing to be mistaken. -/
theorem unmistakable_results {mapper : Mapper} {kind : Mapper.Kind} {target : Value}
    {inner : ℕ → Account} {results : List Outcome} {share : ℕ → Share}
    (htarget : Mapper.Unmistakable (.ok target)) (hlength : results.length ≤ mapper.rules.length)
    (htakes : ∀ i r o, mapper.rules[i]? = some r → results[i]? = some o →
      (share i).Takes kind r target (inner i).outcome o)
    (hinner : ∀ i < results.length, Mapper.Unmistakable (inner i).outcome) :
    ∀ o ∈ results, Mapper.Unmistakable o := by
  intro o ho
  obtain ⟨i, hi, hget⟩ := List.getElem_of_mem ho
  have hr := List.getElem?_eq_getElem (hi.trans_le hlength)
  have hresult : results[i]? = some o := hget ▸ List.getElem?_eq_getElem hi
  obtain ⟨_, result, hrun, _, _, _, hplain, _⟩ := Rule.run_complete_plainly mapper.rules[i] kind
    htarget (hinner i hi) (share i).mid
  cases hrun.symm.trans (htakes i _ o hr hresult).completed
  exact hplain

/-- No account is of an outcome that can be mistaken. -/
theorem Tells.unmistakable (h : Tells c source subject A ms) : Mapper.Unmistakable A.outcome := by
  induction h with
  | @leaf kind r ms o hleaf hcomputed =>
    cases kind with
    | asynchronous => exact (hleaf ms _ hcomputed).2 o rfl
    | synchronous =>
      obtain ⟨m, m', hm, _, hrun⟩ := hcomputed
      obtain ⟨_, _, hend, _, _, ho⟩ := hleaf m hm
      cases hend.symm.trans hrun
      exact ho
  | unmade hmapper hm hmade => exact Mapper.unmistakable_error (hmapper.raises _ _ _ hm hmade)
  | gathered share hmapper hmade hlength htakes _ _ _ _ ih =>
    have htarget := Mapper.unmistakable_ok (Action.isOrdinary_of_construct hmade).2
    exact Mapper.unmistakable_concluded htarget
      (unmistakable_results htarget hlength.le htakes ih)
  | inTurn share stage hmapper hmade hlength htakes _ _ _ _ _ ih =>
    have htarget := Mapper.unmistakable_ok (Action.isOrdinary_of_construct hmade).2
    exact Mapper.unmistakable_concluded htarget (unmistakable_results htarget hlength htakes ih)

/-- A failure of a mapper comes from where its earliest registered rule that failed leads. -/
theorem leads_made {mapper : Mapper} {kind : Mapper.Kind} {target : Value} {inner : ℕ → Account}
    {results : List Outcome} {share : ℕ → Share} (htarget : Mapper.Unmistakable (.ok target))
    (hlength : results.length ≤ mapper.rules.length)
    (htakes : ∀ i r o, mapper.rules[i]? = some r → results[i]? = some o →
      (share i).Takes kind r target (inner i).outcome o)
    (hinner : ∀ i < results.length, Mapper.Unmistakable (inner i).outcome)
    (hleads : ∀ i < results.length, ∀ e, (inner i).outcome = .error e →
      ∃ path, (inner i).Leads path e)
    {e : Raised} (he : mapper.concluded target results = .error e) :
    ∃ path, (made mapper kind target inner results).Leads path e := by
  have hresults := unmistakable_results htarget hlength htakes hinner
  rw [Mapper.concluded] at he
  cases hfirst : Mapper.firstFailure? (mapper.rules.zip results) with
  | none =>
    rw [hfirst] at he
    cases he
  | some failed =>
    rw [hfirst] at he
    obtain ⟨r, e'⟩ := failed
    cases he
    obtain ⟨i, hr, hi, hbefore⟩ := Mapper.exists_of_firstFailure? hresults hfirst
    obtain ⟨hlt, _⟩ := List.getElem?_eq_some_iff.mp hi
    cases hgiven : (inner i).outcome with
    | ok v => exact ⟨[i], .unwritten hi hbefore hgiven⟩
    | error given =>
      obtain ⟨path, hpath⟩ := hleads i hlt given hgiven
      obtain ⟨_, _, hrun, _, _, _, _, hpassed⟩ := r.run_complete_plainly kind htarget
        (hinner i hlt) (share i).mid
      cases hrun.symm.trans (htakes i r _ hr hi).completed
      cases hpassed given hgiven
      exact ⟨i :: path, .inner hi hbefore hgiven hpath⟩

theorem Tells.exists_leads (h : Tells c source subject A ms) {e : Raised}
    (he : A.outcome = .error e) : ∃ path, A.Leads path e := by
  induction h generalizing e with
  | leaf =>
    cases he
    exact ⟨[], .leaf⟩
  | unmade =>
    cases he
    exact ⟨[], .unmade⟩
  | gathered share _ hmade hlength htakes hinner _ _ _ ih =>
    have htarget := Mapper.unmistakable_ok (Action.isOrdinary_of_construct hmade).2
    exact leads_made htarget hlength.le htakes (fun i hi ↦ (hinner i hi).unmistakable)
      (fun i hi _ ↦ ih i hi) he
  | inTurn share stage _ hmade hlength htakes hinner _ _ _ _ ih =>
    have htarget := Mapper.unmistakable_ok (Action.isOrdinary_of_construct hmade).2
    exact leads_made htarget hlength htakes (fun i hi ↦ (hinner i hi).unmistakable)
      (fun i hi _ ↦ ih i hi) he

end Account

/-! ### Warnings -/

namespace Share

variable {x : Share} {kind : Mapper.Kind} {r : Rule} {target : Value} {given result : Outcome}

/-- Completing a rule adds nothing to the log. -/
theorem Takes.log_eq (h : x.Takes kind r target given result)
    (htarget : Mapper.Unmistakable (.ok target)) (hgiven : Mapper.Unmistakable given) :
    x.stop.store.log = x.mid.store.log := by
  obtain ⟨_, _, hrun, hlog, _⟩ := r.run_complete_plainly kind htarget hgiven x.mid
  cases hrun.symm.trans h.completed
  exact hlog

theorem warnings_whole (hlog : x.stop.store.log = x.mid.store.log) :
    Story.warnings x.whole = Story.warnings x.computed := by
  simp [whole, computed, Story.warnings, Story.warningsOf, hlog]

theorem log_grows_whole (hlog : x.stop.store.log = x.mid.store.log)
    (h : ∀ t ∈ x.computed, t.1.store.log <+: t.2.store.log) :
    ∀ t ∈ x.whole, t.1.store.log <+: t.2.store.log := by
  obtain ⟨hbefore, hlast⟩ := List.forall_mem_append.mp h
  refine List.forall_mem_append.mpr ⟨hbefore, ?_⟩
  simpa [hlog] using hlast

section Shares

variable {share : ℕ → Share} {n : ℕ} {entries : ℕ → List Log.Entry}

/-- Moves that consist of shares add to the log what the shares add, in some order. -/
theorem warnings_moves {moves : List (ℕ × Machine × Machine)} (hmoves : ∀ t ∈ moves, t.1 < n)
    (hshare : ∀ i < n, Story.share moves i = (share i).whole)
    (hlog : ∀ i < n, (share i).stop.store.log = (share i).mid.store.log)
    (hentries : ∀ i < n, (∀ t ∈ (share i).computed, t.1.store.log <+: t.2.store.log) ∧
      (Story.warnings (share i).computed).Perm (entries i)) :
    (∀ t ∈ moves.map Prod.snd, t.1.store.log <+: t.2.store.log) ∧
      (Story.warnings (moves.map Prod.snd)).Perm ((List.range n).flatMap entries) := by
  constructor
  · intro t ht
    obtain ⟨⟨i, t⟩, hmove, rfl⟩ := List.mem_map.mp ht
    have hi := hmoves _ hmove
    have hmem : t ∈ Story.share moves i :=
      List.mem_map.mpr ⟨(i, t), List.mem_filter.mpr ⟨hmove, by simp⟩, rfl⟩
    rw [hshare i hi] at hmem
    exact log_grows_whole (hlog i hi) (hentries i hi).1 t hmem
  · refine (Story.perm_flatMap_share _ hmoves).trans (.flatMap_left _ fun i hi ↦ ?_)
    have hi := List.mem_range.mp hi
    change (Story.warnings (Story.share moves i)).Perm _
    rw [hshare i hi, warnings_whole (hlog i hi)]
    exact (hentries i hi).2

/-- Shares that follow each other add to the log what they add one by one. -/
theorem exists_warns_stage {m : Machine} {stage : ℕ → Machine} (hfirst : m.Warns (stage 0) [])
    (hshare : ∀ i < n, (share i).whole = [(stage i, stage (i + 1))])
    (hlog : ∀ i < n, (share i).stop.store.log = (share i).mid.store.log)
    (hentries : ∀ i < n, (∀ t ∈ (share i).computed, t.1.store.log <+: t.2.store.log) ∧
      (Story.warnings (share i).computed).Perm (entries i)) :
    ∃ ws, m.Warns (stage n) ws ∧ ws.Perm ((List.range n).flatMap entries) := by
  induction n with
  | zero => exact ⟨[], hfirst, .refl []⟩
  | succ n ih =>
    obtain ⟨ws, hbefore, hperm⟩ := ih (fun i hi ↦ hshare i (by omega))
      (fun i hi ↦ hlog i (by omega)) fun i hi ↦ hentries i (by omega)
    obtain ⟨hgrown, hadded⟩ := hentries n n.lt_succ_self
    have hgrows := log_grows_whole (hlog n n.lt_succ_self) hgrown
    have hwarnings := (warnings_whole (hlog n n.lt_succ_self)).symm ▸ hadded
    rw [hshare n n.lt_succ_self] at hgrows hwarnings
    refine ⟨_, hbefore.trans (.of_log_grows (hgrows _ List.mem_cons_self)), ?_⟩
    rw [List.range_succ, List.flatMap_append, List.flatMap_singleton]
    rw [Story.warnings, List.flatMap_singleton] at hwarnings
    exact hperm.append hwarnings

end Shares

end Share

/-- Making a target adds nothing to the log. -/
theorem Machine.warns_construct {m : Machine} {type : String} {made : Except Raised Value}
    {s : Store} (h : Action.construct type m.store = (made, s)) :
    m.Warns { m with store := s } [] := by
  have hlog := Action.log_construct type m.store
  rw [h] at hlog
  exact .of_log_eq hlog

/-- What an asynchronous mapper adds to the log when all of its rules have ended. -/
theorem Mapper.warns_conclude {mapper : Mapper} {target : Value} {results : List Outcome}
    (hresults : ∀ o ∈ results, Unmistakable o) {m m' : Machine} {q : Proc}
    (h : m.run (mapper.conclude target results) = (m', q)) :
    m.Warns m' (Episode.warning? ⟨mapper, .asynchronous, results⟩).toList := by
  rw [Episode.warning?, Episode.failed?, ← firstFailure?_zip_eq hresults]
  rw [conclude] at h
  cases hfirst : firstFailure? (mapper.rules.zip results) with
  | none =>
    rw [hfirst] at h
    cases h
    exact .of_log_eq rfl
  | some failed =>
    rw [hfirst] at h
    cases h
    exact ⟨[failureEntry mapper.name failed.1 failed.2], rfl, rfl⟩

namespace Account

variable {c : Footing} {source : Value} {subject : Subject} {A : Account} {ms : Story}

theorem filterMap_cons_eq {α β : Type} (f : α → Option β) (a : α) (l : List α) :
    (a :: l).filterMap f = (f a).toList ++ l.filterMap f := by
  cases ha : f a <;> simp [ha]

/-- The moves of a story only add to the log, and the warnings about failed rules among what they
add are those of the calls of which the account tells, in some order. -/
theorem Tells.warnings (h : Tells c source subject A ms) :
    (∀ t ∈ ms, t.1.store.log <+: t.2.store.log) ∧
      (Story.warnings ms).Perm (A.episodes.filterMap Episode.warning?) := by
  have hone : ∀ {m m' : Machine} {ws : List Log.Entry}, m.Warns m' ws →
      (∀ t ∈ [(m, m')], t.1.store.log <+: t.2.store.log) ∧ Story.warnings [(m, m')] = ws :=
    fun hwarns ↦ ⟨List.forall_mem_singleton.mpr hwarns.log_grows,
      (List.flatMap_singleton ..).trans hwarns.warningsOf_eq⟩
  induction h with
  | @leaf kind r ms o hleaf hcomputed =>
    cases kind with
    | asynchronous =>
      have hquiet := (hleaf ms _ hcomputed).1
      refine ⟨fun t ht ↦ (hquiet t ht).log_grows, ?_⟩
      rw [Story.warnings, List.flatMap_eq_nil_iff.mpr fun t ht ↦ (hquiet t ht).warningsOf_eq]
      exact .refl []
    | synchronous =>
      obtain ⟨m, m', hm, rfl, hrun⟩ := hcomputed
      obtain ⟨_, _, hend, _, hquiet, _⟩ := hleaf m hm
      cases hend.symm.trans hrun
      obtain ⟨hgrows, hnone⟩ := hone hquiet
      exact ⟨hgrows, hnone ▸ .refl []⟩
  | unmade hmapper hm hmade =>
    obtain ⟨hgrows, hnone⟩ := hone (Machine.warns_construct hmade)
    refine ⟨hgrows, ?_⟩
    rw [hnone, episodes, filterMap_cons_eq, Episode.warning?_of_nil]
    exact .refl []
  | @gathered mapper m m₁ m₂ target built moves inner results share hmapper hmade hlength htakes
      hinner hmoves hshare hend ih =>
    have htarget := Mapper.unmistakable_ok (Action.isOrdinary_of_construct hmade).2
    have hgiven : ∀ i < results.length, Mapper.Unmistakable (inner i).outcome :=
      fun i hi ↦ (hinner i hi).unmistakable
    have hmaking := Machine.warns_construct hmade
    have hconclude := Mapper.warns_conclude
      (unmistakable_results htarget hlength.le htakes hgiven) hend
    have hlog : ∀ i < results.length, (share i).stop.store.log = (share i).mid.store.log := by
      intro i hi
      exact (htakes i _ _ (List.getElem?_eq_getElem (hlength ▸ hi))
        (List.getElem?_eq_getElem hi)).log_eq htarget (hgiven i hi)
    obtain ⟨hgrows, hparts⟩ := Share.warnings_moves hmoves hshare hlog ih
    refine ⟨List.forall_mem_cons.mpr ⟨hmaking.log_grows, List.forall_mem_append.mpr
      ⟨hgrows, List.forall_mem_singleton.mpr hconclude.log_grows⟩⟩, ?_⟩
    rw [Story.warnings, List.flatMap_cons, List.flatMap_append, List.flatMap_singleton,
      hmaking.warningsOf_eq, hconclude.warningsOf_eq, List.nil_append, episodes,
      filterMap_cons_eq, List.filterMap_flatMap]
    exact List.perm_append_comm.trans (hparts.append_left _)
  | @inTurn mapper m target built inner results share stage hmapper hmade hlength htakes hinner
      hfirst hshare _ _ ih =>
    have htarget := Mapper.unmistakable_ok (Action.isOrdinary_of_construct hmade).2
    have hlog : ∀ i < results.length, (share i).stop.store.log = (share i).mid.store.log :=
      fun i hi ↦ (htakes i _ _ (List.getElem?_eq_getElem (Nat.lt_of_lt_of_le hi hlength))
        (List.getElem?_eq_getElem hi)).log_eq htarget (hinner i hi).unmistakable
    obtain ⟨ws, hwarns, hperm⟩ :=
      Share.exists_warns_stage (hfirst ▸ Machine.warns_construct hmade) hshare hlog ih
    obtain ⟨hgrows, hsame⟩ := hone hwarns
    refine ⟨hgrows, ?_⟩
    rw [hsame, episodes, filterMap_cons_eq, List.filterMap_flatMap]
    exact hperm

/-- The mappers whose calls are told of were made by builders, and no more rules were begun than
there are. -/
theorem Tells.reliable (h : Tells c source subject A ms) : ∀ x ∈ A.episodes,
    c.Reliable x.mapper x.kind ∧ x.results.length ≤ x.mapper.rules.length := by
  induction h with
  | leaf => exact nofun
  | unmade hmapper => exact List.forall_mem_singleton.mpr ⟨hmapper, Nat.zero_le _⟩
  | gathered _ hmapper _ hlength _ _ _ _ _ ih =>
    refine List.forall_mem_cons.mpr ⟨⟨hmapper, hlength.le⟩, fun x hx ↦ ?_⟩
    obtain ⟨i, hi, hmem⟩ := List.mem_flatMap.mp hx
    exact ih i (List.mem_range.mp hi) x hmem
  | inTurn _ _ hmapper _ hlength _ _ _ _ _ _ ih =>
    refine List.forall_mem_cons.mpr ⟨⟨hmapper, hlength⟩, fun x hx ↦ ?_⟩
    obtain ⟨i, hi, hmem⟩ := List.mem_flatMap.mp hx
    exact ih i (List.mem_range.mp hi) x hmem

end Account

end Recast
