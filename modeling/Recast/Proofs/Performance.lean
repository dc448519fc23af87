import Recast.Proofs.Construction
import Recast.Proofs.Scene

/-!
Mappers act in scenes. What the process of a mapper does in a move is a run of steps at its address
and below, as long as this holds of the computes of its rules (`Setting.performs_transform`), and a
mapper that needs no waiting does all its steps at once (`Setting.performsAtOnce_transformSync`). A
mapper is then itself a compute of which this holds, so it holds at every depth.
-/

set_option autoImplicit false

namespace Recast

/-- Writing gives the target or the value. -/
theorem Slot.eq_or_eq_of_write {slot : Slot} {target v w : Value} {s : Store}
    (h : (slot.write target v s).1 = .ok w) : w = target ∨ w = v := by
  unfold Slot.write at h
  cases hlast : slot.path.getLast? with
  | none =>
    rw [hlast] at h
    cases h
    exact Or.inr rfl
  | some name =>
    simp only [hlast, Action.bind] at h
    split at h
    · split at h
      · cases h
        exact Or.inl rfl
      · cases h
    · cases h

/-- Completing a rule in turn takes no waiting either, and makes no awaitable of what is none. -/
theorem Rule.exists_run_complete (r : Rule) {target : Value} (o : Outcome)
    (ho : ∀ v, o = .ok v → v.isAwaitable = false) (htarget : target.isAwaitable = false)
    (m : Machine) : ∃ m' result, m.run (r.complete target .synchronous o) = (m', .settled result) ∧
      ∀ w, result = .ok w → w.isAwaitable = false := by
  cases o with
  | error e => exact ⟨m, _, rfl, nofun⟩
  | ok v =>
    refine ⟨_, _, rfl, fun w hw ↦ ?_⟩
    rcases Slot.eq_or_eq_of_write (s := r.binder.compiled m.store) hw with rfl | rfl
    · exact htarget
    · exact ho _ rfl

/-- A mapper whose target cannot be made ends in the fault. -/
theorem Mapper.run_transform_error (mapper : Mapper) {source : Value} (hsource : source ≠ .null)
    {m : Machine} {e : Raised} {s : Store}
    (hmade : Action.construct mapper.target m.store = (.error e, s)) :
    m.run (mapper.transform source) = ({ m with store := s }, .settled (.error e)) := by
  have htransform : mapper.transform source =
      Prog.first (Action.construct mapper.target) fun target ↦ mapper.fill source target := by
    cases source with
    | null => exact absurd rfl hsource
    | _ => rfl
  rw [htransform, Prog.first, Machine.run_act, Machine.act, hmade]
  rfl

theorem Mapper.run_transformSync_error (mapper : Mapper) {source : Value} (hsource : source ≠ .null)
    {m : Machine} {e : Raised} {s : Store}
    (hmade : Action.construct mapper.target m.store = (.error e, s)) :
    m.run (mapper.transformSync source) = ({ m with store := s }, .settled (.error e)) := by
  have htransform : mapper.transformSync source =
      Prog.first (Action.construct mapper.target) fun target ↦
        Prog.sequence (mapper.rules.map fun r ↦ r.applySync source target) fun results ↦
          Prog.give (mapper.result target results) := by
    cases source with
    | null => exact absurd rfl hsource
    | _ => rfl
  rw [htransform, Prog.first, Machine.run_act, Machine.act, hmade]
  rfl

namespace Setting

/-! ### Processes that act -/

/-- A process at an address is in a good state when steps beside it leave it there, and when its
moves are steps at its address and below; what a good state tells of the scene is left open. -/
structure Performer (S : Setting) (inv : Scene → Prop) (a : List ℕ) (tale : Proc → Scene → Prop)
    (good : Proc → Scene → Prop) : Prop where
  undisturbed {p : Proc} {σ τ : Scene} (h : good p σ) (hσ : inv σ) (hbeside : S.Beside a σ τ) :
    good p τ
  move {p q : Proc} {σ : Scene} {m : Machine} (h : good p σ) (hσ : inv σ)
    (hmove : Machine.Move σ.machine p m q) : ∃ τ, S.Within a σ τ ∧ τ.machine = m ∧ good q τ
  tells {p : Proc} {σ : Scene} (h : good p σ) (hσ : inv σ) : tale p σ

/-- Where nothing has been called, the program is run in steps. -/
def Starts (S : Setting) (inv : Scene → Prop) (a : List ℕ) (good : Proc → Scene → Prop)
    (p : Prog) : Prop :=
  ∀ (σ : Scene) (m : Machine) (q : Proc), inv σ → σ.IsVacant a → σ.machine.run p = (m, q) →
    ∃ τ, S.Within a σ τ ∧ τ.machine = m ∧ good q τ

/-- The call of a mapper stands at an address, and when the process has ended, so has the call; a
value that the process gives is what the call ended in. -/
def Stands (mapper : Mapper) (kind : Mapper.Kind) (source : Value) (a : List ℕ) (p : Proc)
    (σ : Scene) : Prop :=
  ∃ x, σ.activation a = some x ∧ x.mapper = mapper ∧ x.kind = kind ∧ x.source = source ∧
    ∀ o, p = .settled o → x.outcome ≠ none ∧ ∀ v, o = .ok v → x.outcome = some (.ok v)

/-- Wherever the program of a mapper is run at an address, it acts there in steps. -/
def Performs (S : Setting) (inv : Scene → Prop) (mapper : Mapper) (kind : Mapper.Kind)
    (source : Value) (a : List ℕ) (p : Prog) : Prop :=
  ∃ good, S.Performer inv a (Stands mapper kind source a) good ∧ S.Starts inv a good p

/-- When the compute of a rule has ended, then in what the setting allows. -/
def Answers (S : Setting) (r : Rule) (a : List ℕ) (p : Proc) (σ : Scene) : Prop :=
  ∀ o, p = .settled o → S.gives r a σ o

/-- Wherever the compute of a rule is run at an address, it begins as the setting has it, acts there
in steps, and ends in what the setting allows. -/
def Serves (S : Setting) (inv : Scene → Prop) (a : List ℕ) (r : Rule) (p : Prog) : Prop :=
  ∃ good, S.Performer inv a (S.Answers r a) good ∧
    ∀ (σ : Scene) (m : Machine) (q : Proc), inv σ → σ.IsFree a → σ.machine.run p = (m, q) →
      ∃ m₁, S.opens r σ.machine m₁ ∧ ∀ τ, inv τ → τ.machine = m₁ → τ.IsVacant a →
        ∃ υ, S.Within a τ υ ∧ υ.machine = m ∧ good q υ

variable {S : Setting} {inv : Scene → Prop} {a : List ℕ} {mapper : Mapper} {kind : Mapper.Kind}
  {source : Value}

theorem Performs.serves {p : Prog} {r : Rule} (h : S.Performs inv mapper kind source a p)
    (hopens : ∀ m, S.opens r m m)
    (hgives : ∀ σ o, Stands mapper kind source a (.settled o) σ → S.gives r a σ o) :
    S.Serves inv a r p := by
  obtain ⟨good, hgood, hstarts⟩ := h
  refine ⟨good, ⟨hgood.undisturbed, hgood.move, ?_⟩, ?_⟩
  · rintro p σ hp hσ o rfl
    exact hgives σ o (hgood.tells hp hσ)
  · intro σ m q _ _ hrun
    refine ⟨σ.machine, hopens _, ?_⟩
    intro τ hτ hmachine hvacant
    exact hstarts τ m q hτ hvacant (hmachine ▸ hrun)

theorem stands_close {σ : Scene} {x : Activation} {o : Outcome}
    (hhere : σ.activation a = some (x.close o)) (hmapper : x.mapper = mapper)
    (hkind : x.kind = kind) (hsource : x.source = source) :
    Stands mapper kind source a (.settled o) σ := by
  refine ⟨_, hhere, hmapper, hkind, hsource, ?_⟩
  rintro _ ⟨⟩
  refine ⟨Option.some_ne_none o, ?_⟩
  rintro v rfl
  rfl

theorem Stands.of_beside {p : Proc} {σ τ : Scene} (h : Stands mapper kind source a p σ)
    (hbeside : S.Beside a σ τ) : Stands mapper kind source a p τ := by
  obtain ⟨x, hhere, hx⟩ := h
  exact ⟨x, hbeside.activation_eq.trans hhere, hx⟩

/-- The process of a coroutine goes on like its body, or it has ended. -/
def Shielded (mapper : Mapper) (kind : Mapper.Kind) (source : Value) (a : List ℕ)
    (good : Proc → Scene → Prop) (p : Proc) (σ : Scene) : Prop :=
  (∃ q, p = q.bind Prog.guarded ∧ good q σ) ∨
    (∃ o, p = .settled o) ∧ Stands mapper kind source a p σ

section Shielded

variable {good : Proc → Scene → Prop}

/-- When the body has ended, so does the coroutine. -/
theorem Performer.exists_shielded (hgood : S.Performer inv a (Stands mapper kind source a) good)
    (hquiet : ∀ (m : Machine) id, S.quiet m { m with store := { m.store with nextId := id } })
    {σ : Scene} {p q : Proc} {m : Machine} (hσ : inv σ) (hp : good p σ)
    (hnext : Machine.goOn Prog.guarded (σ.machine, p) = (m, q)) :
    ∃ τ, S.Within a σ τ ∧ τ.machine = m ∧ Shielded mapper kind source a good q τ := by
  by_cases hended : ∃ o, p = .settled o
  · obtain ⟨o, rfl⟩ := hended
    obtain ⟨id, o', hrun, hlet⟩ := σ.machine.run_guarded o
    cases hrun.symm.trans hnext
    obtain ⟨x, hhere, hmapper, hkind, hsource, hout⟩ := hgood.tells hp hσ
    refine ⟨_, .of_step (.other (hquiet σ.machine id)) fun _ _ ↦ rfl, rfl,
      Or.inr ⟨⟨o', rfl⟩, x, hhere, hmapper, hkind, hsource, ?_⟩⟩
    rintro _ ⟨⟩
    refine ⟨(hout o rfl).1, ?_⟩
    rintro v rfl
    cases hlet
    exact (hout _ rfl).2 v rfl
  · rw [Machine.goOn_of_ne fun o ho ↦ hended ⟨o, ho⟩] at hnext
    cases hnext
    exact ⟨σ, .refl a σ, rfl, Or.inl ⟨p, rfl, hp⟩⟩

theorem Performer.shielded (hinv : S.Keeps inv)
    (hgood : S.Performer inv a (Stands mapper kind source a) good)
    (hquiet : ∀ (m : Machine) id, S.quiet m { m with store := { m.store with nextId := id } }) :
    S.Performer inv a (Stands mapper kind source a) (Shielded mapper kind source a good) := by
  constructor
  · rintro p σ τ (⟨r, rfl, hr⟩ | ⟨hended, hstands⟩) hσ hbeside
    · exact Or.inl ⟨r, rfl, hgood.undisturbed hr hσ hbeside⟩
    · exact Or.inr ⟨hended, hstands.of_beside hbeside⟩
  · rintro p q σ m (⟨r, rfl, hr⟩ | ⟨⟨o, rfl⟩, _⟩) hσ hmove
    · rcases hmove.of_bind with ⟨o, rfl, hrun⟩ | ⟨m₁, r₁, hfirst, hrest⟩
      · exact hgood.exists_shielded hquiet hσ hr hrun
      · obtain ⟨τ, hwithin, rfl, hnext⟩ := hgood.move hr hσ hfirst
        obtain ⟨υ, hwithin', hm, hq⟩ :=
          hgood.exists_shielded hquiet (hinv.run hσ hwithin.run) hnext hrest
        exact ⟨υ, hwithin.trans hwithin', hm, hq⟩
    · exact absurd rfl (hmove.ne_settled o)
  · rintro p σ (⟨r, rfl, hr⟩ | ⟨_, hstands⟩) hσ
    · obtain ⟨x, hhere, hmapper, hkind, hsource, _⟩ := hgood.tells hr hσ
      refine ⟨x, hhere, hmapper, hkind, hsource, fun o ho ↦ ?_⟩
      exact absurd ho (r.bind_ne_settled _ o)
    · exact hstands

end Shielded

/-- The process of a coroutine acts as its body does. -/
theorem Performs.asCoroutine (hinv : S.Keeps inv) {p : Prog}
    (h : S.Performs inv mapper kind source a p)
    (hquiet : ∀ (m : Machine) id,
      S.quiet m { m with store := { m.store with nextId := id } }) :
    S.Performs inv mapper kind source a p.asCoroutine := by
  obtain ⟨good, hgood, hstarts⟩ := h
  refine ⟨_, hgood.shielded hinv hquiet, fun σ m q hσ hvacant hrun ↦ ?_⟩
  rw [Prog.asCoroutine, Machine.run_bind] at hrun
  rcases hbody : σ.machine.run p with ⟨m₁, r₁⟩
  rw [hbody] at hrun
  obtain ⟨τ, hwithin, rfl, hnext⟩ := hstarts σ m₁ r₁ hσ hvacant hbody
  obtain ⟨υ, hwithin', hm, hq⟩ :=
    hgood.exists_shielded hquiet (hinv.run hσ hwithin.run) hnext hrun
  exact ⟨υ, hwithin.trans hwithin', hm, hq⟩

/-! ### Rules side by side -/

section Ensemble

variable {good : ℕ → Rule → Proc → Scene → Prop}

/-- How the process of a rule agrees with the progress of the rule. -/
inductive Acts (good : ℕ → Rule → Proc → Scene → Prop) (a : List ℕ) (source target : Value)
    (r : Rule) (i : ℕ) (σ : Scene) : Progress → Proc → Prop
  | waiting (hfree : σ.IsFree (a ++ [i])) :
    Acts good a source target r i σ .waiting (.fresh (r.apply source target))
  | computing {q : Proc} (h : good i r q σ) :
    Acts good a source target r i σ .computing (q.bind (r.finish target))
  | ended {given result : Outcome} :
    Acts good a source target r i σ (.ended given result) (.settled result)

/-- The activation of a mapper that runs its rules side by side, with the processes of the rules. -/
structure Ensemble (mapper : Mapper) (source : Value) (good : ℕ → Rule → Proc → Scene → Prop)
    (a : List ℕ) (σ : Scene) (x : Activation) (t : Making) (parts : List Proc) : Prop where
  here : σ.activation a = some x
  mapper_eq : x.mapper = mapper
  kind_eq : x.kind = .asynchronous
  source_eq : x.source = source
  made_eq : x.made = some t
  outcome_eq : x.outcome = none
  length_eq : parts.length = mapper.rules.length
  progress_length : x.progress.length = mapper.rules.length
  acts : ∀ i r g p, mapper.rules[i]? = some r → x.progress[i]? = some g → parts[i]? = some p →
    Acts good a source t.target r i σ g p

/-- The mapper waits for its rules, or it has ended. -/
def Engaged (mapper : Mapper) (source : Value) (good : ℕ → Rule → Proc → Scene → Prop) (a : List ℕ)
    (p : Proc) (σ : Scene) : Prop :=
  (∃ x t parts, Ensemble mapper source good a σ x t parts ∧
    p = .joining false parts (mapper.whenAll t.target)) ∨
  (∃ o, p = .settled o) ∧ Stands mapper .asynchronous source a p σ

/-- The computes of the rules of a mapper act below it. -/
def Staffed (S : Setting) (inv : Scene → Prop) (a : List ℕ) (mapper : Mapper)
    (good : ℕ → Rule → Proc → Scene → Prop) : Prop :=
  ∀ i r, mapper.rules[i]? = some r →
    S.Performer inv (a ++ [i]) (S.Answers r (a ++ [i])) (good i r)

variable {σ τ : Scene} {x : Activation} {t : Making} {parts : List Proc}

theorem Acts.undisturbed {r : Rule} {i : ℕ} {target : Value} {g : Progress} {p : Proc}
    (h : Acts good a source target r i σ g p)
    (hgood : S.Performer inv (a ++ [i]) (S.Answers r (a ++ [i])) (good i r)) (hσ : inv σ)
    (hbeside : S.Beside (a ++ [i]) σ τ) : Acts good a source target r i τ g p := by
  cases h with
  | waiting hfree => exact .waiting (hbeside.isFree hfree)
  | computing h => exact .computing (hgood.undisturbed h hσ hbeside)
  | ended => exact .ended

theorem Ensemble.undisturbed (h : Ensemble mapper source good a σ x t parts)
    (hgood : S.Staffed inv a mapper good) (hσ : inv σ) (hbeside : S.Beside a σ τ) :
    Ensemble mapper source good a τ x t parts :=
  { h with
    here := hbeside.activation_eq.trans h.here
    acts := fun i r g p hr hg hp ↦
      (h.acts i r g p hr hg hp).undisturbed (hgood i r hr) hσ (hbeside.down i) }

/-- One rule goes on, beside the others. -/
theorem Ensemble.change (h : Ensemble mapper source good a σ x t parts)
    (hgood : S.Staffed inv a mapper good) (hσ : inv σ) {i : ℕ} {r : Rule} {g : Progress} {p : Proc}
    (hr : mapper.rules[i]? = some r) (hbeside : ∀ j, i ≠ j → S.Beside (a ++ [j]) σ τ)
    (hhere : τ.activation a = some (x.advance i g))
    (hact : Acts good a source t.target r i τ g p) :
    Ensemble mapper source good a τ (x.advance i g) t (parts.set i p) := by
  refine ⟨hhere, h.mapper_eq, h.kind_eq, h.source_eq, h.made_eq, h.outcome_eq, ?_, ?_, ?_⟩
  · rw [List.length_set, h.length_eq]
  · rw [Activation.advance, List.length_set, h.progress_length]
  · intro j s g' p' hs hg hp
    rw [Activation.advance] at hg
    by_cases hij : i = j
    · subst hij
      obtain ⟨hlt, _⟩ := List.getElem?_eq_some_iff.mp hr
      rw [List.getElem?_set_self (h.progress_length ▸ hlt)] at hg
      rw [List.getElem?_set_self (h.length_eq ▸ hlt)] at hp
      cases hr.symm.trans hs
      cases hg
      cases hp
      exact hact
    · rw [List.getElem?_set_ne hij] at hg hp
      exact (h.acts j s g' p' hs hg hp).undisturbed (hgood j s hs) hσ (hbeside j hij)

/-- The compute of a rule has gone on; when it has ended, the rule is completed. -/
theorem Ensemble.proceed (h : Ensemble mapper source good a σ x t parts)
    (hgood : S.Staffed inv a mapper good) (hσ : inv σ) {i : ℕ} {r : Rule}
    (hr : mapper.rules[i]? = some r) {υ : Scene}
    (hbeside : ∀ j, i ≠ j → S.Beside (a ++ [j]) σ υ) (hυ : inv υ)
    (hhere : υ.activation a = some (x.advance i .computing)) {q p : Proc} (hq : good i r q υ)
    {m : Machine} (hnext : Machine.goOn (r.finish t.target) (υ.machine, q) = (m, p)) :
    ∃ τ y, S.Within a υ τ ∧ τ.machine = m ∧
      Ensemble mapper source good a τ y t (parts.set i p) := by
  have hsame := h.change hgood hσ hr hbeside hhere (.computing hq)
  by_cases hended : ∃ o, q = .settled o
  · obtain ⟨given, rfl⟩ := hended
    obtain ⟨m', result, hrun⟩ := r.exists_run_finish t.target given υ.machine
    cases hrun.symm.trans hnext
    obtain ⟨hlt, _⟩ := List.getElem?_eq_some_iff.mp hr
    have hprogress : (x.advance i .computing).progress[i]? = some .computing :=
      List.getElem?_set_self (h.progress_length ▸ hlt)
    have hstep : S.Step υ (υ.put a ((x.advance i .computing).advance i (.ended given result)) m) :=
      .finish hhere hsame.outcome_eq hsame.made_eq (hsame.mapper_eq ▸ hr) hprogress
        ((hgood i r hr).tells hq hυ given rfl) (hsame.kind_eq ▸ hrun)
    have hlast := hsame.change hgood hυ hr (fun j _ ↦ .put hstep j)
      (Scene.activation_put_self ..) .ended
    rw [List.set_set] at hlast
    exact ⟨_, _, .put hstep, rfl, hlast⟩
  · rw [Machine.goOn_of_ne fun o ho ↦ hended ⟨o, ho⟩] at hnext
    cases hnext
    exact ⟨υ, _, .refl a υ, rfl, hsame⟩

/-- The computes of the rules begin as the setting has it. -/
def Ready (S : Setting) (inv : Scene → Prop) (a : List ℕ) (mapper : Mapper) (source : Value)
    (good : ℕ → Rule → Proc → Scene → Prop) : Prop :=
  ∀ i r, mapper.rules[i]? = some r → ∀ (σ : Scene) (m : Machine) (q : Proc), inv σ →
    σ.IsFree (a ++ [i]) → σ.machine.run (r.evaluate source) = (m, q) →
    ∃ m₁, S.opens r σ.machine m₁ ∧ ∀ τ, inv τ → τ.machine = m₁ → τ.IsVacant (a ++ [i]) →
      ∃ υ, S.Within (a ++ [i]) τ υ ∧ υ.machine = m ∧ good i r q υ

/-- A rule moves: its compute begins or goes on, and when it has ended, the rule is completed. -/
theorem Ensemble.move (hinv : S.Keeps inv) (hgood : S.Staffed inv a mapper good)
    (hready : S.Ready inv a mapper source good) {before after : List Proc} {p q : Proc}
    (h : Ensemble mapper source good a σ x t (before ++ p :: after)) (hσ : inv σ) {m : Machine}
    (hmove : Machine.Move σ.machine p m q) :
    ∃ τ y, S.Within a σ τ ∧ τ.machine = m ∧
      Ensemble mapper source good a τ y t (before ++ q :: after) := by
  have hset : (before ++ p :: after).set before.length q = before ++ q :: after := by simp
  have hlt : before.length < mapper.rules.length := by
    rw [← h.length_eq, List.length_append, List.length_cons]
    omega
  have hr := List.getElem?_eq_getElem hlt
  obtain ⟨g, hg⟩ : ∃ g, x.progress[before.length]? = some g :=
    ⟨_, List.getElem?_eq_getElem (h.progress_length.symm ▸ hlt)⟩
  have hact := h.acts before.length _ _ p hr hg (by simp)
  generalize mapper.rules[before.length] = r at hr hact
  rw [← hset]
  cases hact with
  | ended => exact absurd rfl (hmove.ne_settled _)
  | waiting hfree =>
    cases hmove with
    | start hrun =>
      rw [Rule.apply_eq, Machine.run_bind] at hrun
      rcases hbody : σ.machine.run (r.evaluate source) with ⟨m₁, q₁⟩
      rw [hbody] at hrun
      obtain ⟨m₀, hopens, hbegins⟩ := hready _ r hr σ m₁ q₁ hσ hfree hbody
      have hstep : S.Step σ (σ.put a (x.advance before.length .computing) m₀) :=
        .start h.here h.outcome_eq (h.mapper_eq ▸ hr) hg hopens
      have hcomputing : (x.advance before.length .computing).progress[before.length]? =
          some .computing := List.getElem?_set_self (List.getElem?_eq_some_iff.mp hg).1
      obtain ⟨υ, hwithin, rfl, hq⟩ := hbegins _ (hinv _ _ hσ hstep) rfl
        ⟨(Beside.put hstep before.length).isFree hfree,
          Scene.isAwaited_of_computing (Scene.activation_put_self ..) hcomputing⟩
      have hhere : υ.activation a = some (x.advance before.length .computing) :=
        hwithin.activation_eq.trans (Scene.activation_put_self ..)
      have hυ := hinv.run (hinv _ _ hσ hstep) hwithin.run
      obtain ⟨τ, y, hlast, hm, hnext⟩ := h.proceed hgood hσ hr
        (fun j hj ↦ (Beside.put hstep j).trans (hwithin.beside hj)) hυ hhere hq hrun
      exact ⟨τ, y, ((Within.put hstep).trans hwithin.up).trans hlast, hm, hnext⟩
  | @computing q₀ hq₀ =>
    have hsame : x.advance before.length .computing = x := by
      obtain ⟨_, hget⟩ := List.getElem?_eq_some_iff.mp hg
      rw [Activation.advance, ← hget, List.set_getElem_self]
    rcases hmove.of_bind with ⟨o, rfl, hrun⟩ | ⟨m₁, q₁, hfirst, hrest⟩
    · exact h.proceed hgood hσ hr (fun j _ ↦ .refl _ σ) hσ (hsame.symm ▸ h.here) hq₀ hrun
    · obtain ⟨υ, hwithin, rfl, hq⟩ := (hgood _ r hr).move hq₀ hσ hfirst
      have hhere : υ.activation a = some (x.advance before.length .computing) :=
        hwithin.activation_eq.trans (hsame.symm ▸ h.here)
      obtain ⟨τ, y, hlast, hm, hnext⟩ := h.proceed hgood hσ hr (fun j hj ↦ hwithin.beside hj)
        (hinv.run hσ hwithin.run) hhere hq hrest
      exact ⟨τ, y, hwithin.up.trans hlast, hm, hnext⟩

/-- When the processes of all rules have ended, so have the rules. -/
theorem Ensemble.exists_ends (h : Ensemble mapper source good a σ x t parts) {os : List Outcome}
    (hos : Proc.outcomes? parts = some os) : ∃ ends : List (Outcome × Outcome),
      (x.progress = ends.map fun e ↦ .ended e.1 e.2) ∧ ends.map Prod.snd = os := by
  have hparts := Proc.outcomes?_eq_some_iff.mp hos
  have hlength : os.length = mapper.rules.length := by
    rw [← h.length_eq, hparts, List.length_map]
  have hall : List.Forall₂ (fun g o ↦ ∃ given, g = Progress.ended given o) x.progress os := by
    refine List.forall₂_iff_get.mpr ⟨h.progress_length.trans hlength.symm, ?_⟩
    intro i hi ho
    have hpart : parts[i]? = some (.settled os[i]) := by
      rw [hparts, List.getElem?_map, List.getElem?_eq_getElem ho]
      rfl
    have hact := h.acts i _ _ _ (List.getElem?_eq_getElem (hlength ▸ ho))
      (List.getElem?_eq_getElem hi) hpart
    generalize hp : Proc.settled os[i] = p at hact
    simp only [List.get_eq_getElem]
    generalize x.progress[i] = g at hact
    cases hact with
    | waiting => cases hp
    | computing => exact absurd hp.symm (Proc.bind_ne_settled _ _ _)
    | ended =>
      cases hp
      exact ⟨_, rfl⟩
  clear hos hparts hlength
  generalize x.progress = progress at hall
  induction hall with
  | nil => exact ⟨[], rfl, rfl⟩
  | cons hg _ ih =>
    obtain ⟨given, rfl⟩ := hg
    obtain ⟨ends, rfl, rfl⟩ := ih
    exact ⟨(given, _) :: ends, rfl, rfl⟩

/-- The rules have just been started. -/
theorem ensemble_begun (hmapper : x.mapper = mapper) (hkind : x.kind = .asynchronous)
    (hsource : x.source = source) (hopen : x.outcome = none)
    (hhere : σ.activation a = some (x.begun t)) (hfree : ∀ i, σ.IsFree (a ++ [i])) :
    Ensemble mapper source good a σ (x.begun t) t
      ((mapper.rules.map fun r ↦ r.apply source t.target).map .fresh) := by
  refine ⟨hhere, hmapper, hkind, hsource, rfl, hopen, by simp, ?_, ?_⟩
  · rw [Activation.begun, List.length_map, hmapper]
  · intro i r g p hr hg hp
    simp only [Activation.begun, hmapper, List.getElem?_map, hr, Option.map_some,
      Option.some.injEq] at hg hp
    subst hg hp
    exact .waiting (hfree i)

/-- A mapper that runs its rules side by side acts in steps. -/
theorem performer_engaged (hinv : S.Keeps inv) (hgood : S.Staffed inv a mapper good)
    (hready : S.Ready inv a mapper source good) :
    S.Performer inv a (Stands mapper .asynchronous source a) (Engaged mapper source good a) where
  undisturbed := by
    rintro p σ τ (⟨x, t, parts, h, rfl⟩ | ⟨hended, hstands⟩) hσ hbeside
    · exact Or.inl ⟨x, t, parts, h.undisturbed hgood hσ hbeside, rfl⟩
    · exact Or.inr ⟨hended, hstands.of_beside hbeside⟩
  move := by
    rintro p q σ m (⟨x, t, parts, h, rfl⟩ | ⟨⟨o, rfl⟩, _⟩) hσ hmove
    · cases hmove with
      | part hpart =>
        obtain ⟨τ, y, hwithin, hm, hnext⟩ := h.move hinv hgood hready hσ hpart
        exact ⟨τ, hwithin, hm, Or.inl ⟨y, t, _, hnext, rfl⟩⟩
      | @join _ _ _ os _ _ hos hrun =>
        obtain ⟨ends, hends, rfl⟩ := h.exists_ends hos
        obtain ⟨log, hend, _⟩ := mapper.run_conclude t.target (ends.map Prod.snd) σ.machine
        cases hend.symm.trans hrun
        have hconcludes : x.Concludes (mapper.concluded t.target (ends.map Prod.snd)) :=
          h.mapper_eq ▸ .gathered h.kind_eq h.made_eq hends
        exact ⟨_, .put (.conclude h.here h.outcome_eq hconcludes), rfl,
          Or.inr ⟨⟨_, rfl⟩, stands_close (Scene.activation_put_self ..) h.mapper_eq h.kind_eq
            h.source_eq⟩⟩
    · exact absurd rfl (hmove.ne_settled o)
  tells := by
    rintro p σ (⟨x, t, parts, h, rfl⟩ | ⟨_, hstands⟩) _
    · exact ⟨x, h.here, h.mapper_eq, h.kind_eq, h.source_eq, nofun⟩
    · exact hstands

/-- What a mapper does with a source first. -/
theorem starts_transform (hadmits : S.admits mapper .asynchronous) (hrules : mapper.rules ≠ []) :
    S.Starts inv a (Engaged mapper source good a) (mapper.transform source) := by
  rintro σ m q _ ⟨hfree, hawaited⟩ hrun
  let x : Activation := .called mapper .asynchronous source
  have hcall : S.Step σ (σ.put a x σ.machine) :=
    .call (hfree a (List.prefix_refl a)) hawaited hadmits
  have hhere : (σ.put a x σ.machine).activation a = some x := Scene.activation_put_self ..
  have hnew : x.IsNew := ⟨rfl, rfl⟩
  by_cases hsource : source = .null
  · subst hsource
    cases hrun
    have hstep : S.Step (σ.put a x σ.machine) _ := .absent hhere hnew rfl
    exact ⟨_, (Within.put hcall).trans (.put hstep), rfl,
      Or.inr ⟨⟨_, rfl⟩, stands_close (Scene.activation_put_self ..) rfl rfl rfl⟩⟩
  · rcases hmade : Action.construct mapper.target σ.machine.store with ⟨e | target, s⟩
    · have hstep : S.Step (σ.put a x σ.machine) _ := .unmade hhere hnew hsource hmade
      rw [mapper.run_transform_error hsource hmade] at hrun
      cases hrun
      exact ⟨_, (Within.put hcall).trans (.put hstep), rfl,
        Or.inr ⟨⟨_, rfl⟩, stands_close (Scene.activation_put_self ..) rfl rfl rfl⟩⟩
    · have hstep : S.Step (σ.put a x σ.machine) _ := .begin hhere hnew hsource hmade
      rw [mapper.run_transform hrules hsource hmade] at hrun
      cases hrun
      refine ⟨_, (Within.put hcall).trans (.put hstep), rfl, Or.inl ⟨_, _, _,
        ensemble_begun rfl rfl rfl rfl (Scene.activation_put_self ..) fun i ↦ ?_, rfl⟩⟩
      have hbelow : σ.IsFree (a ++ [i]) := fun b hb ↦ hfree b ((List.prefix_append a [i]).trans hb)
      exact (Beside.put hstep i).isFree ((Beside.put hcall i).isFree hbelow)

/-- A mapper whose computes act in steps acts in steps. -/
theorem performs_transform (hinv : S.Keeps inv) (hadmits : S.admits mapper .asynchronous)
    (hrules : mapper.rules ≠ [])
    (hserves : ∀ i r, mapper.rules[i]? = some r →
      S.Serves inv (a ++ [i]) r (r.evaluate source)) :
    S.Performs inv mapper .asynchronous source a (mapper.transform source) := by
  choose! good hgood hready using hserves
  exact ⟨_, performer_engaged hinv hgood hready, starts_transform hadmits hrules⟩

end Ensemble

/-! ### Rules in turn -/

/-- Wherever the program of a mapper is run at an address, it takes all its steps there at once, and
its value is no awaitable. -/
def PerformsAtOnce (S : Setting) (inv : Scene → Prop) (mapper : Mapper) (kind : Mapper.Kind)
    (source : Value) (a : List ℕ) (p : Prog) : Prop :=
  ∀ σ, inv σ → σ.IsVacant a → ∃ τ o, S.Within a σ τ ∧ σ.machine.run p = (τ.machine, .settled o) ∧
    Stands mapper kind source a (.settled o) τ ∧ ∀ v, o = .ok v → v.isAwaitable = false

/-- Wherever the compute of a rule is run at an address, it begins as the setting has it and takes
all its steps there at once, and it ends in what the setting allows and in no awaitable. -/
def ServesAtOnce (S : Setting) (inv : Scene → Prop) (a : List ℕ) (r : Rule) (p : Prog) : Prop :=
  ∀ (σ : Scene) (m : Machine) (q : Proc), inv σ → σ.IsFree a → σ.machine.run p = (m, q) →
    ∃ m₁, S.opens r σ.machine m₁ ∧ ∀ τ, inv τ → τ.machine = m₁ → τ.IsVacant a →
      ∃ υ o, S.Within a τ υ ∧ υ.machine = m ∧ q = .settled o ∧ S.gives r a υ o ∧
        ∀ v, o = .ok v → v.isAwaitable = false

theorem PerformsAtOnce.servesAtOnce {p : Prog} {r : Rule}
    (h : S.PerformsAtOnce inv mapper kind source a p) (hopens : ∀ m, S.opens r m m)
    (hgives : ∀ σ o, Stands mapper kind source a (.settled o) σ → S.gives r a σ o) :
    S.ServesAtOnce inv a r p := by
  intro σ m q _ _ hrun
  refine ⟨σ.machine, hopens _, ?_⟩
  intro τ hτ hmachine hvacant
  obtain ⟨υ, o, hwithin, hend, hstands, hv⟩ := h τ hτ hvacant
  rw [hmachine, hrun] at hend
  obtain ⟨rfl, rfl⟩ := Prod.mk.inj hend
  exact ⟨υ, o, hwithin, rfl, rfl, hgives υ o hstands, hv⟩

/-- What ends at once ends in the first move. -/
theorem PerformsAtOnce.performs {p q : Prog} (h : S.PerformsAtOnce inv mapper kind source a p)
    (hsame : ∀ (m m' : Machine) (o : Outcome), m.run p = (m', .settled o) →
      (∀ v, o = .ok v → v.isAwaitable = false) → m.run q = (m', .settled o)) :
    S.Performs inv mapper kind source a q := by
  refine ⟨fun r σ ↦ (∃ o, r = .settled o) ∧ Stands mapper kind source a r σ, ⟨?_, ?_, ?_⟩, ?_⟩
  · exact fun h _ hbeside ↦ ⟨h.1, h.2.of_beside hbeside⟩
  · rintro _ _ _ _ ⟨⟨o, rfl⟩, _⟩ _ hmove
    exact absurd rfl (hmove.ne_settled o)
  · exact fun h _ ↦ h.2
  · intro σ m r hσ hvacant hrun
    obtain ⟨τ, o, hwithin, hend, hstands, hv⟩ := h σ hσ hvacant
    cases (hsame _ _ _ hend hv).symm.trans hrun
    exact ⟨τ, hwithin, rfl, ⟨o, rfl⟩, hstands⟩

section Solo

variable {σ τ : Scene} {x : Activation} {t : Making}

/-- The activation of a mapper that runs its rules in turn, of which the first have ended well. -/
structure Solo (mapper : Mapper) (source : Value) (a : List ℕ) (σ : Scene) (x : Activation)
    (t : Making) (ends : List (Outcome × Value)) (rest : List Rule) : Prop where
  here : σ.activation a = some x
  mapper_eq : x.mapper = mapper
  kind_eq : x.kind = .synchronous
  source_eq : x.source = source
  made_eq : x.made = some t
  outcome_eq : x.outcome = none
  rules_eq : ∃ before, mapper.rules = before ++ rest ∧ before.length = ends.length
  progress_eq : x.progress =
    (ends.map fun e ↦ .ended e.1 (.ok e.2)) ++ rest.map fun _ ↦ Progress.waiting
  ordinary : ∀ e ∈ ends, e.2.isAwaitable = false
  free : ∀ i, ends.length ≤ i → σ.IsFree (a ++ [i])

/-- The next rule takes its turn. -/
theorem Solo.turn (hinv : S.Keeps inv) (hσ : inv σ) {ends : List (Outcome × Value)} {r : Rule}
    {rest : List Rule} (h : Solo mapper source a σ x t ends (r :: rest))
    (hserves : S.ServesAtOnce inv (a ++ [ends.length]) r (r.obtainSync source))
    (htarget : t.target.isAwaitable = false) :
    ∃ τ given result, S.Within a σ τ ∧
      σ.machine.run (r.applySync source t.target) = (τ.machine, .settled result) ∧
      τ.activation a = some (x.advance ends.length (.ended given result)) ∧
      (∀ i, ends.length < i → τ.IsFree (a ++ [i])) ∧
      ∀ w, result = .ok w → w.isAwaitable = false := by
  obtain ⟨before, hrules, hlength⟩ := h.rules_eq
  have hr : x.mapper.rules[ends.length]? = some r := by
    rw [h.mapper_eq, hrules, ← hlength]
    simp
  have hwaiting : x.progress[ends.length]? = some .waiting := by
    rw [h.progress_eq]
    simp
  rcases hrun : σ.machine.run (r.obtainSync source) with ⟨m, q⟩
  obtain ⟨m₁, hopens, hbegins⟩ := hserves σ m q hσ (h.free _ le_rfl) hrun
  have hstart : S.Step σ (σ.put a (x.advance ends.length .computing) m₁) :=
    .start h.here h.outcome_eq hr hwaiting hopens
  have hcomputing : (x.advance ends.length .computing).progress[ends.length]? =
      some .computing := List.getElem?_set_self (List.getElem?_eq_some_iff.mp hwaiting).1
  obtain ⟨υ, given, hwithin, rfl, rfl, hgives, hgiven⟩ := hbegins _ (hinv _ _ hσ hstart) rfl
    ⟨(Beside.put hstart ends.length).isFree (h.free _ le_rfl),
      Scene.isAwaited_of_computing (Scene.activation_put_self ..) hcomputing⟩
  have hhere : υ.activation a = some (x.advance ends.length .computing) :=
    hwithin.activation_eq.trans (Scene.activation_put_self ..)
  obtain ⟨m', result, hcomplete, hresult⟩ :=
    r.exists_run_complete given hgiven htarget υ.machine
  have hfinish : S.Step υ (υ.put a ((x.advance ends.length .computing).advance ends.length
      (.ended given result)) m') :=
    .finish hhere h.outcome_eq h.made_eq hr hcomputing hgives (h.kind_eq.symm ▸ hcomplete)
  refine ⟨_, given, result, ((Within.put hstart).trans hwithin.up).trans (.put hfinish), ?_, ?_, ?_,
    hresult⟩
  · rw [Rule.run_applySync hrun]
    cases given <;> exact hcomplete
  · rw [Scene.activation_put_self, Activation.advance, Activation.advance, List.set_set]
    rfl
  · intro i hi
    have hbeside : S.Beside (a ++ [i]) σ υ :=
      (Beside.put hstart i).trans (hwithin.beside (Nat.ne_of_lt hi))
    exact (Beside.put hfinish i).isFree (hbeside.isFree (h.free i hi.le))

/-- The rules take their turns up to the first that fails. -/
theorem Solo.sequence (hinv : S.Keeps inv)
    (hserves : ∀ i r, mapper.rules[i]? = some r →
      S.ServesAtOnce inv (a ++ [i]) r (r.obtainSync source))
    (htarget : t.target.isAwaitable = false) {rest : List Rule} {ends : List (Outcome × Value)}
    (h : Solo mapper source a σ x t ends rest) (hσ : inv σ) (f : List Value → Prog) :
    (∃ τ e, S.Within a σ τ ∧
        σ.machine.run (Prog.sequence (rest.map fun r ↦ r.applySync source t.target) f) =
          (τ.machine, .settled (.error e)) ∧
        Stands mapper .synchronous source a (.settled (.error e)) τ) ∨
      ∃ τ y more, S.Within a σ τ ∧
        σ.machine.run (Prog.sequence (rest.map fun r ↦ r.applySync source t.target) f) =
          τ.machine.run (f (more.map Prod.snd)) ∧
        Solo mapper source a τ y t (ends ++ more) [] := by
  induction rest generalizing σ x ends f with
  | nil => exact Or.inr ⟨σ, x, [], .refl a σ, rfl, by simpa using h⟩
  | cons r rest ih =>
    obtain ⟨before, hrules, hlength⟩ := h.rules_eq
    have hr : mapper.rules[ends.length]? = some r := by
      rw [hrules, ← hlength]
      simp
    obtain ⟨τ, given, result, hwithin, hrun, hhere, hfree, hresult⟩ :=
      h.turn hinv hσ (hserves _ r hr) htarget
    rw [List.map_cons, Prog.sequence, Prog.andThen, Machine.run_bind, hrun, Machine.goOn]
    cases result with
    | error e =>
      have hended : (x.advance ends.length (.ended given (.error e))).progress[ends.length]? =
          some (.ended given (.error e)) := by
        rw [Activation.advance, h.progress_eq]
        simp
      have hstep : S.Step τ (τ.put a _ { τ.machine with
          store := { τ.machine.store with log := τ.machine.store.log } }) :=
        .conclude hhere h.outcome_eq (.stopped h.kind_eq h.made_eq hended)
      exact Or.inl ⟨_, e, hwithin.trans (.put hstep), rfl,
        stands_close (Scene.activation_put_self ..) h.mapper_eq h.kind_eq h.source_eq⟩
    | ok w =>
      have hnext : Solo mapper source a τ (x.advance ends.length (.ended given (.ok w))) t
          (ends ++ [(given, w)]) rest := by
        refine ⟨hhere, h.mapper_eq, h.kind_eq, h.source_eq, h.made_eq, h.outcome_eq,
          ⟨before ++ [r], by simp [hrules], by simp [hlength]⟩, ?_, ?_, ?_⟩
        · rw [Activation.advance, h.progress_eq]
          simp
        · exact List.forall_mem_append.mpr
            ⟨h.ordinary, List.forall_mem_singleton.mpr (hresult w rfl)⟩
        · intro i hi
          rw [List.length_append, List.length_singleton] at hi
          exact hfree i hi
      rcases ih hnext (hinv.run hσ hwithin.run) fun vs ↦ f (w :: vs) with
        ⟨υ, e, hwithin', hrun', hstands⟩ | ⟨υ, y, more, hwithin', hrun', hlast⟩
      · exact Or.inl ⟨υ, e, hwithin.trans hwithin', hrun', hstands⟩
      · exact Or.inr ⟨υ, y, (given, w) :: more, hwithin.trans hwithin', hrun', by simpa using hlast⟩

theorem isAwaitable_result (mapper : Mapper) {target : Value} {results : List Value}
    (htarget : target.isAwaitable = false) (hresults : ∀ v ∈ results, v.isAwaitable = false) :
    (mapper.result target results).isAwaitable = false := by
  rw [Mapper.result]
  split
  · cases results with
    | nil => exact htarget
    | cons v rest => exact hresults v List.mem_cons_self
  · exact htarget

/-- A mapper whose computes take their steps at once takes its steps at once. -/
theorem performsAtOnce_transformSync (hinv : S.Keeps inv) (hadmits : S.admits mapper .synchronous)
    (hserves : ∀ i r, mapper.rules[i]? = some r →
      S.ServesAtOnce inv (a ++ [i]) r (r.obtainSync source)) :
    S.PerformsAtOnce inv mapper .synchronous source a (mapper.transformSync source) := by
  rintro σ hσ ⟨hfree, hawaited⟩
  let x : Activation := .called mapper .synchronous source
  have hcall : S.Step σ (σ.put a x σ.machine) :=
    .call (hfree a (List.prefix_refl a)) hawaited hadmits
  have hhere : (σ.put a x σ.machine).activation a = some x := Scene.activation_put_self ..
  have hnew : x.IsNew := ⟨rfl, rfl⟩
  by_cases hsource : source = .null
  · subst hsource
    have hstep : S.Step (σ.put a x σ.machine) _ := .absent hhere hnew rfl
    exact ⟨_, .ok .null, (Within.put hcall).trans (.put hstep), rfl,
      stands_close (Scene.activation_put_self ..) rfl rfl rfl, fun v hv ↦ Except.ok.inj hv ▸ rfl⟩
  · rcases hmade : Action.construct mapper.target σ.machine.store with ⟨e | target, s⟩
    · have hstep : S.Step (σ.put a x σ.machine) _ := .unmade hhere hnew hsource hmade
      exact ⟨_, .error e, (Within.put hcall).trans (.put hstep),
        mapper.run_transformSync_error hsource hmade,
        stands_close (Scene.activation_put_self ..) rfl rfl rfl, nofun⟩
    · have hstep : S.Step (σ.put a x σ.machine) _ := .begin hhere hnew hsource hmade
      have htarget := (Action.isOrdinary_of_construct hmade).1
      have hbegun := hinv _ _ (hinv _ _ hσ hcall) hstep
      have hsolo : Solo mapper source a _ (x.begun _) _ [] mapper.rules :=
        ⟨Scene.activation_put_self .., rfl, rfl, rfl, rfl, rfl, ⟨[], rfl, rfl⟩, rfl, nofun,
          fun i _ ↦ (Beside.put hstep i).isFree ((Beside.put hcall i).isFree
            fun b hb ↦ hfree b ((List.prefix_append a [i]).trans hb))⟩
      have hbegins := (Within.put hcall).trans (.put hstep)
      rw [mapper.run_transformSync hsource hmade]
      rcases hsolo.sequence hinv hserves htarget hbegun
          fun results ↦ Prog.give (mapper.result target results) with
        ⟨τ, e, hwithin, hrun, hstands⟩ | ⟨τ, y, more, hwithin, hrun, hlast⟩
      · exact ⟨τ, .error e, hbegins.trans hwithin, hrun, hstands, nofun⟩
      · have hconcludes : y.Concludes (.ok (mapper.result target (more.map Prod.snd))) := by
          have hprogress := hlast.progress_eq
          rw [List.map_nil, List.append_nil, List.nil_append] at hprogress
          exact hlast.mapper_eq ▸ .filled hlast.kind_eq hlast.made_eq hprogress
        have hend : S.Step τ (τ.put a _ { τ.machine with
            store := { τ.machine.store with log := τ.machine.store.log } }) :=
          .conclude hlast.here hlast.outcome_eq hconcludes
        refine ⟨_, _, (hbegins.trans hwithin).trans (.put hend), hrun,
          stands_close (Scene.activation_put_self ..) hlast.mapper_eq hlast.kind_eq hlast.source_eq,
          fun v hv ↦ ?_⟩
        cases hv
        refine isAwaitable_result mapper htarget fun v hv ↦ ?_
        obtain ⟨e, he, rfl⟩ := List.mem_map.mp hv
        exact hlast.ordinary e he

end Solo

end Setting

end Recast
