import Recast.Proofs.Account
import Recast.Proofs.Composition
import Recast.Proofs.Turn
import Mathlib.Tactic.Choose

/-!
Rules start together. With the turn after the one in which the target is made, the process of an
asynchronous mapper starts all its rules, in the order of their registration, and from then on none
is left that has not begun (`Together`). The process ends in no turn in which a rule has not ended,
and when all have ended, with its next turn. This is so for each mapper in layers of mappers
(`Unfolds`, `Mapper.Layered.unfolds`).
-/

set_option autoImplicit false

namespace Recast

/-- A turn of a process, with the turns that its parts take in it. -/
structure Beat where
  start : Machine
  stop : Machine
  moves : List (ℕ × Machine × Machine)

/-- The move that the turn is. -/
def Beat.span (b : Beat) : Machine × Machine := (b.start, b.stop)

/-! ### Parts -/

/-- Programs that were started side by side have taken turns as parts of a process. They start in
its first turn, one after the other. -/
structure Together (progs : List Prog) (beats : List Beat) (parts : List Proc) : Prop where
  length_eq : parts.length = progs.length
  start : ∀ b ∈ beats.head?, b.moves.map Prod.fst = List.range progs.length
  bounds : ∀ b ∈ beats, ∀ t ∈ b.moves, t.1 < progs.length
  spans : ∀ b ∈ beats, ∃ m, Machine.Spans b.start b.moves m
  follows : ∀ i p q, progs[i]? = some p → parts[i]? = some q →
    Story.Follows Machine.Turn p (Story.share (beats.flatMap Beat.moves) i) q
  unbegun : beats = [] → parts = progs.map .fresh

namespace Together

variable {progs : List Prog} {beats : List Beat} {parts : List Proc}

theorem begin (progs : List Prog) : Together progs [] (progs.map .fresh) where
  length_eq := List.length_map _
  start _ hb := nomatch hb
  bounds := nofun
  spans := nofun
  follows i p q hp hq := by
    rw [List.getElem?_map, hp] at hq
    cases hq
    exact .fresh
  unbegun _ := rfl

/-- After the first turn each part has begun. -/
theorem share_ne_nil (h : Together progs beats parts) (hbeats : beats ≠ []) {i : ℕ}
    (hi : i < progs.length) : Story.share (beats.flatMap Beat.moves) i ≠ [] := by
  obtain ⟨b, rest, rfl⟩ := List.exists_cons_of_ne_nil hbeats
  have hstart : b.moves.map Prod.fst = List.range progs.length := h.start b rfl
  refine Story.share_ne_nil ?_
  rw [List.flatMap_cons, List.map_append, hstart]
  exact List.mem_append_left _ (List.mem_range.mpr hi)

/-- One turn more. -/
theorem tail (h : Together progs beats parts) {b : Beat} {parts' : List Proc}
    (hlength : parts'.length = parts.length)
    (hstart : beats = [] → b.moves.map Prod.fst = List.range progs.length)
    (hbounds : ∀ t ∈ b.moves, t.1 < progs.length) (hspans : ∃ m, Machine.Spans b.start b.moves m)
    (hparts : ∀ i p q, parts[i]? = some p → parts'[i]? = some q →
      p = q ∧ Story.share b.moves i = [] ∨
        ∃ m m', Machine.Turn m p m' q ∧ Story.share b.moves i = [(m, m')]) :
    Together progs (beats ++ [b]) parts' where
  length_eq := hlength.trans h.length_eq
  start := by
    cases beats with
    | nil => exact fun _ hb ↦ Option.mem_some.mp hb ▸ hstart rfl
    | cons first rest => exact h.start
  bounds := List.forall_mem_append.mpr ⟨h.bounds, List.forall_mem_singleton.mpr hbounds⟩
  spans := List.forall_mem_append.mpr ⟨h.spans, List.forall_mem_singleton.mpr hspans⟩
  follows i p q hp hq := by
    obtain ⟨q₀, hq₀⟩ : ∃ q₀, parts[i]? = some q₀ :=
      ⟨_, List.getElem?_eq_getElem (hlength ▸ (List.getElem?_eq_some_iff.mp hq).1)⟩
    have hfollows := h.follows i p q₀ hp hq₀
    rw [List.flatMap_append, List.flatMap_singleton, Story.share_append]
    rcases hparts i q₀ q hq₀ hq with ⟨rfl, hshare⟩ | ⟨m, m', hturn, hshare⟩
    · rwa [hshare, List.append_nil]
    · exact hshare ▸ hfollows.move hturn
  unbegun hnil := absurd hnil (List.append_ne_nil_of_right_ne_nil _ (List.cons_ne_nil _ _))

/-- A round of all parts is one turn more. -/
theorem round (h : Together progs beats parts) (m m' : Machine) :
    ∃ moves, Together progs (beats ++ [⟨m, m', moves⟩]) (Machine.advanceAll parts m).2 := by
  obtain ⟨moves, hround⟩ := Machine.exists_round parts 0 m
  refine ⟨moves, h.tail hround.length_eq (fun hnil ↦ ?_) (fun t ht ↦ ?_) ⟨_, hround.spans⟩
    fun i p q hp hq ↦ ?_⟩
  · have hparts := h.unbegun hnil
    rw [hround.map_fst_eq (by simp [hparts]), h.length_eq, List.range_eq_range']
  · have := (hround.mem_bounds ht).2
    rwa [Nat.zero_add, h.length_eq] at this
  · have hshare := hround.share hp hq
    rw [Nat.zero_add] at hshare
    rcases hshare with ⟨o, rfl, rfl, hshare⟩ | hturn
    · exact Or.inl ⟨rfl, hshare⟩
    · exact Or.inr hturn

/-- So is a turn of one part that has begun. -/
theorem single {before after : List Proc} {p q : Proc}
    (h : Together progs beats (before ++ p :: after)) (hp : p.IsSuspended) {m m' : Machine}
    (hpart : Machine.Turn m p m' q) :
    Together progs (beats ++ [⟨m, m', [(before.length, m, m')]⟩]) (before ++ q :: after) := by
  have hlt : before.length < progs.length := by
    rw [← h.length_eq, List.length_append, List.length_cons]
    omega
  have hset : before ++ q :: after = (before ++ p :: after).set before.length q := by simp
  refine h.tail (by simp) (fun hnil ↦ ?_) (List.forall_mem_singleton.mpr hlt) ⟨m', .cons .nil⟩
    fun i p' q' hp' hq' ↦ ?_
  · -- at the start no part is suspended
    have hmem : p ∈ progs.map .fresh := h.unbegun hnil ▸ (by simp)
    obtain ⟨r, _, hr⟩ := List.mem_map.mp hmem
    exact absurd hr.symm (hp.1 r)
  · by_cases hi : before.length = i
    · subst hi
      simp only [List.getElem?_append_right le_rfl, Nat.sub_self, List.getElem?_cons_zero,
        Option.some.injEq] at hp'
      rw [hset, List.getElem?_set_self (by simp)] at hq'
      cases hp'
      cases hq'
      exact Or.inr ⟨m, m', hpart, by simp [Story.share]⟩
    · rw [hset, List.getElem?_set_ne hi, hp'] at hq'
      cases hq'
      exact Or.inl ⟨rfl, by simp [Story.share, hi]⟩

/-- A turn of a process that waits for all its parts is a turn of the parts, and in no turn before
all have ended has it ended. -/
theorem turn (h : Together progs beats parts) {k : Option (List Outcome) → Prog}
    (hk : ∀ (m : Machine) os, ∃ m' o, m.run (k (some os)) = (m', .settled o)) {m m' : Machine}
    {q : Proc} (hturn : Machine.Turn m (.joining false parts k) m' q) :
    ∃ moves parts', Together progs (beats ++ [⟨m, m', moves⟩]) parts' ∧
      (q = .joining false parts' k ∨
        (∃ os : List Outcome, parts' = os.map .settled) ∧ ∃ o, q = .settled o) := by
  cases hturn with
  | whole _ hadvance =>
    obtain ⟨moves, hnext⟩ := h.round m m'
    refine ⟨moves, _, hnext, ?_⟩
    rw [Machine.advance] at hadvance
    dsimp only at hadvance
    cases hos : Proc.outcomes? (Machine.advanceAll parts m).2 with
    | none =>
      rw [hos] at hadvance
      cases hadvance
      exact Or.inl rfl
    | some os =>
      obtain ⟨m₂, o, hrun⟩ := hk (Machine.advanceAll parts m).1 os
      rw [hos] at hadvance
      cases hrun.symm.trans hadvance
      exact Or.inr ⟨⟨os, Proc.outcomes?_eq_some_iff.mp hos⟩, o, rfl⟩
  | part hp hpart => exact ⟨_, _, h.single hp hpart, Or.inl rfl⟩

end Together

/-! ### Calls -/

/-- How the process of a compute came to be what it is. A compute that is no mapper has taken turns.
A call of an asynchronous mapper has not begun; or its target could not be made; or it has made its
target with its first turn, and in its next one it has started its rules, each of them once and in
the order of registration, before a rule takes another turn; no compute is called again. Each rule
takes the turns of its compute, and it has ended when the compute has. While a rule has not ended,
the call has not; when all have, it ends with its next turn, whatever the machine is like. -/
inductive Unfolds (source : Value) : Subject → Story → Proc → Prop
  | leaf {r : Rule} {ms : Story} {q : Proc}
      (h : Story.Follows Machine.Turn (r.evaluate source) ms q) :
    Unfolds source (.leaf .asynchronous r) ms q
  | called {mapper : Mapper} : Unfolds source (.call mapper .asynchronous) []
      (.fresh (mapper.transform source).asCoroutine)
  | unmade {mapper : Mapper} {m m' : Machine} {e : Raised} {s : Store} {o : Outcome}
      (hmade : Action.construct mapper.target m.store = (.error e, s)) :
    Unfolds source (.call mapper .asynchronous) [(m, m')] (.settled o)
  | made {mapper : Mapper} {m : Machine} {target : Value} {built : Store} {beats : List Beat}
      {subject : ℕ → Subject} {computed : ℕ → Story} {inner : ℕ → Proc} {q : Proc}
      (hmade : Action.construct mapper.target m.store = (.ok target, built))
      (hstart : ∀ b ∈ beats.head?, b.moves.map Prod.fst = List.range mapper.rules.length)
      (hbounds : ∀ b ∈ beats, ∀ t ∈ b.moves, t.1 < mapper.rules.length)
      (hspans : ∀ b ∈ beats, ∃ m', Machine.Spans b.start b.moves m')
      (hbegun : beats ≠ [] → ∀ i < mapper.rules.length, ∀ p, inner i ≠ .fresh p)
      (hsubject : ∀ i r, mapper.rules[i]? = some r → (subject i).IsComputeOf .asynchronous r)
      (hinner : ∀ i < mapper.rules.length, Unfolds source (subject i) (computed i) (inner i))
      (hshare : ∀ i < mapper.rules.length,
        (Story.share (beats.flatMap Beat.moves) i).map Prod.fst = (computed i).map Prod.fst)
      (hwaits : (∃ o, q = .settled o) → ∀ i < mapper.rules.length, ∃ o, inner i = .settled o)
      (hready : (∀ i < mapper.rules.length, ∃ o, inner i = .settled o) →
        (∃ o, q = .settled o) ∨ ∀ m, ∃ m' o, Machine.advance q m = (m', .settled o)) :
    Unfolds source (.call mapper .asynchronous)
      ((m, { m with store := built }) :: beats.map Beat.span) q

/-- The turns of a rule are those of its compute, and the rule has ended when its compute has. -/
theorem Rule.exists_computed {r : Rule} {source target : Value} {ms : Story} {p : Proc}
    (h : Story.Follows Machine.Turn (r.apply source target) ms p) :
    ∃ computed inner, Story.Follows Machine.Turn (r.evaluate source) computed inner ∧
      ms.map Prod.fst = computed.map Prod.fst ∧
      ((∃ o, p = .settled o) ↔ ∃ o, inner = .settled o) := by
  rw [r.apply_eq] at h
  rcases h.of_bind Machine.steps_turn fun m o ↦ r.exists_run_finish target o m with
    ⟨q, hcompute, hopen, rfl⟩ | ⟨before, m, m₁, m', given, result, rfl, hcompute, _, rfl⟩
  · refine ⟨ms, q, hcompute, rfl, iff_of_false ?_ fun ⟨o, ho⟩ ↦ hopen o ho⟩
    rintro ⟨o, ho⟩
    exact q.bind_ne_settled _ o ho
  · exact ⟨_, _, hcompute, by simp, iff_of_true ⟨_, rfl⟩ ⟨_, rfl⟩⟩

namespace Mapper

variable {mapper : Mapper} {source : Value}

/-- What follows in the coroutine of a mapper when all rules have ended. -/
def thereupon (mapper : Mapper) (target : Value) (outcomes : Option (List Outcome)) : Prog :=
  (mapper.whenAll target outcomes).bind Prog.guarded

/-- It ends at once and takes little of the store. -/
theorem run_thereupon (mapper : Mapper) (target : Value) (outcomes : List Outcome) (m : Machine) :
    ∃ s o, m.run (mapper.thereupon target (some outcomes)) = ({ m with store := s }, .settled o) ∧
      ∀ base, m.store.SameBelow base s := by
  obtain ⟨log, hend, _⟩ := mapper.run_conclude target outcomes m
  obtain ⟨id, o, hguarded, _⟩ := Machine.run_guarded (mapper.concluded target outcomes)
    { m with store := { m.store with log := log } }
  refine ⟨{ m.store with log := log, nextId := id }, o, ?_, fun base ↦
    ⟨rfl, rfl, rfl, rfl, rfl, rfl, rfl, rfl, le_rfl, fun _ _ ↦ rfl⟩⟩
  rw [thereupon, Machine.run_bind, whenAll, hend, Machine.goOn]
  exact hguarded

/-- How far a call of a mapper has come. -/
inductive CallPhase (mapper : Mapper) (source : Value) : Story → Proc → Prop
  | called : CallPhase mapper source [] (.fresh (mapper.transform source).asCoroutine)
  | unmade {m m' : Machine} {e : Raised} {s : Store} {o : Outcome}
      (hmade : Action.construct mapper.target m.store = (.error e, s)) :
    CallPhase mapper source [(m, m')] (.settled o)
  | made {m : Machine} {target : Value} {built : Store} {beats : List Beat} {parts : List Proc}
      {q : Proc} (hmade : Action.construct mapper.target m.store = (.ok target, built))
      (h : Together (mapper.rules.map fun r ↦ r.apply source target) beats parts)
      (hq : q = .joining false parts (mapper.thereupon target) ∨
        (∃ os : List Outcome, parts = os.map .settled) ∧ ∃ o, q = .settled o) :
    CallPhase mapper source ((m, { m with store := built }) :: beats.map Beat.span) q

/-- A turn takes a call further. -/
theorem CallPhase.turn (hrules : mapper.rules ≠ []) (hsource : source ≠ .null) {ms : Story}
    {q r : Proc} {m m' : Machine} (h : CallPhase mapper source ms q)
    (hturn : Machine.Turn m q m' r) : CallPhase mapper source (ms ++ [(m, m')]) r := by
  cases h with
  | called =>
    cases hturn with
    | whole _ hadvance =>
      rw [Machine.advance, Prog.asCoroutine, Machine.run_bind] at hadvance
      rcases hmade : Action.construct mapper.target m.store with ⟨e | target, built⟩
      · obtain ⟨_, o, hguarded, _⟩ := Machine.run_guarded (.error e) { m with store := built }
        rw [mapper.run_transform_error hsource hmade] at hadvance
        cases hguarded.symm.trans hadvance
        exact .unmade hmade
      · rw [mapper.run_transform hrules hsource hmade] at hadvance
        cases hadvance
        exact (CallPhase.made hmade (.begin _) (Or.inl rfl) :
          CallPhase mapper source (_ :: [].map Beat.span) _)
  | unmade => exact absurd rfl (Machine.steps_turn.ne_settled hturn _)
  | @made _ target _ _ _ _ hmade htogether hq =>
    rcases hq with rfl | ⟨_, o, rfl⟩
    · have hends : ∀ (m : Machine) (os : List Outcome), ∃ m' o,
          m.run (mapper.thereupon target (some os)) = (m', .settled o) := fun m os ↦ by
        obtain ⟨_, o, hrun, _⟩ := mapper.run_thereupon target os m
        exact ⟨_, o, hrun⟩
      obtain ⟨moves, parts', hnext, hr⟩ := htogether.turn hends hturn
      simpa [Beat.span] using CallPhase.made hmade hnext hr
    · exact absurd rfl (Machine.steps_turn.ne_settled hturn o)

theorem callPhase (hrules : mapper.rules ≠ []) (hsource : source ≠ .null) {ms : Story} {q : Proc}
    (h : Story.Follows Machine.Turn (mapper.transform source).asCoroutine ms q) :
    CallPhase mapper source ms q := by
  induction h with
  | fresh => exact .called
  | move _ hturn ih => exact ih.turn hrules hsource hturn

/-- When the computes of the rules unfold, so does the call. -/
theorem unfolds_call (hrules : mapper.rules ≠ []) (hsource : source ≠ .null)
    (hinner : ∀ r ∈ mapper.rules, ∃ s, Subject.IsComputeOf .asynchronous r s ∧
      ∀ ms q, Story.Follows Machine.Turn (r.evaluate source) ms q → Unfolds source s ms q)
    {ms : Story} {q : Proc}
    (h : Story.Follows Machine.Turn (mapper.transform source).asCoroutine ms q) :
    Unfolds source (.call mapper .asynchronous) ms q := by
  cases callPhase hrules hsource h with
  | called => exact .called
  | unmade hmade => exact .unmade hmade
  | @made _ target _ beats parts _ hmade htogether hq =>
    have hlength : parts.length = mapper.rules.length := by simpa using htogether.length_eq
    have hpart : ∀ i, ∃ (s : Subject) (computed : Story) (inner : Proc), i < mapper.rules.length →
        (∀ r, mapper.rules[i]? = some r → s.IsComputeOf .asynchronous r) ∧
        Unfolds source s computed inner ∧
        (Story.share (beats.flatMap Beat.moves) i).map Prod.fst = computed.map Prod.fst ∧
        (beats ≠ [] → ∀ p, inner ≠ .fresh p) ∧
        ((∃ o, parts[i]? = some (.settled o)) ↔ ∃ o, inner = .settled o) := by
      intro i
      by_cases hi : i < mapper.rules.length
      · have hr := List.getElem?_eq_getElem hi
        have hp := List.getElem?_eq_getElem (hlength ▸ hi : i < parts.length)
        obtain ⟨s, hs, hunfolds⟩ := hinner _ (List.mem_of_getElem? hr)
        obtain ⟨computed, inner, hcompute, hshare, hended⟩ := Rule.exists_computed
          (htogether.follows i (mapper.rules[i].apply source target) _ (by simp [hr]) hp)
        refine ⟨s, computed, inner, fun _ ↦
          ⟨fun r hr' ↦ ?_, hunfolds _ _ hcompute, hshare, fun hbeats ↦ ?_, ?_⟩⟩
        · cases hr.symm.trans hr'
          exact hs
        · refine Machine.ne_fresh_of_follows hcompute fun hnil ↦ ?_
          rw [hnil, List.map_nil, List.map_eq_nil_iff] at hshare
          exact htogether.share_ne_nil hbeats (by simpa using hi) hshare
        · rw [hp, ← hended]
          simp only [Option.some.injEq]
      · exact ⟨default, default, .settled default, fun hlt ↦ absurd hlt hi⟩
    choose subject computed inner hpart using hpart
    refine .made hmade ?_ ?_ htogether.spans (fun hbeats i hi ↦ (hpart i hi).2.2.2.1 hbeats)
      (fun i r hr ↦ (hpart i (List.getElem?_eq_some_iff.mp hr).1).1 r hr)
      (fun i hi ↦ (hpart i hi).2.1) (fun i hi ↦ (hpart i hi).2.2.1) ?_ ?_
    · simpa using htogether.start
    · simpa using htogether.bounds
    · rintro ⟨o, rfl⟩ i hi
      rcases hq with hq | ⟨⟨os, rfl⟩, _⟩
      · cases hq
      · rw [List.length_map] at hlength
        have hos := List.getElem?_eq_getElem (hlength ▸ hi : i < os.length)
        exact (hpart i hi).2.2.2.2.mp ⟨_, by rw [List.getElem?_map, hos]; rfl⟩
    · intro hall
      rcases hq with rfl | ⟨_, hq⟩
      · have hsettled : ∀ p ∈ parts, ∃ o, p = .settled o := by
          intro p hp
          obtain ⟨i, hi, rfl⟩ := List.mem_iff_getElem.mp hp
          obtain ⟨o, ho⟩ := (hpart i (hlength ▸ hi)).2.2.2.2.mpr (hall i (hlength ▸ hi))
          exact ⟨o, (List.getElem?_eq_some_iff.mp ho).2⟩
        obtain ⟨os, rfl⟩ := Proc.exists_map_settled hsettled
        refine Or.inr fun m ↦ ?_
        obtain ⟨s, o, hrun, _⟩ := mapper.run_thereupon target os m
        refine ⟨{ m with store := s }, o, ?_⟩
        rw [Machine.advance, Machine.advanceAll_map_settled]
        dsimp only
        rw [Proc.outcomes?_eq_some_iff.mpr rfl]
        exact hrun
      · exact Or.inl hq

/-- The mapper is one of a kind that a builder has made. -/
def IsBuilt (mapper : Mapper) (kind : Kind) : Prop := ∃ b : Builder, b.mapperOf kind = .ok mapper

theorem IsBuilt.rules_ne_nil {kind : Kind} (h : mapper.IsBuilt kind) : mapper.rules ≠ [] := by
  obtain ⟨b, hb⟩ := h
  obtain ⟨hsnapshot, hne, _⟩ := Builder.mapperOf_eq_ok hb
  exact hsnapshot ▸ hne

/-- Calls of mappers in layers unfold, at every depth. -/
theorem Layered.unfolds (hsource : source ≠ .null) {kind : Kind}
    (h : Layered IsBuilt (fun _ _ ↦ True) mapper kind) (hkind : kind = .asynchronous) {ms : Story}
    {q : Proc} (hfollows : Story.Follows Machine.Turn (mapper.transform source).asCoroutine ms q) :
    Unfolds source (.call mapper .asynchronous) ms q := by
  induction h generalizing ms q with
  | @intro mapper kind inner hbuilt _ _ hcompute _ ih =>
    refine unfolds_call hbuilt.rules_ne_nil hsource (fun r hr ↦ ?_) hfollows
    cases hinner : inner r with
    | none => exact ⟨.leaf .asynchronous r, ⟨rfl, rfl⟩, fun _ _ ↦ .leaf⟩
    | some q =>
      obtain ⟨inside, k⟩ := q
      cases k with
      | synchronous => exact ⟨.leaf .asynchronous r, ⟨rfl, rfl⟩, fun _ _ ↦ .leaf⟩
      | asynchronous =>
        have hr' : r.compute = inside.compute .asynchronous := hcompute r hr _ hinner
        have hevaluate : r.evaluate source = (inside.transform source).asCoroutine := by
          rw [Rule.evaluate, hr']
          rfl
        exact ⟨.call inside .asynchronous, hr', fun _ _ h ↦ ih r hr _ hinner rfl (hevaluate ▸ h)⟩

end Mapper

end Recast
