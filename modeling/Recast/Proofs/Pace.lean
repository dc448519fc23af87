import Recast.Proofs.Duration
import Recast.Proofs.Transparency

/-!
Rules go together. In layers of asynchronous mappers all rules of a call start together, the call
ends when all of them have, and in company it takes as long as the slowest of them, at each level
(`Mapper.rules_go_together`).
-/

set_option autoImplicit false

namespace Recast

/-- How long a call of a mapper in layers takes on a machine, given how long the computes take there
that are no mappers: at each level as long as the slowest rule. -/
inductive Company.Lasts (E : Company) (m : Machine) (source : Value) : Mapper → ℕ → Prop
  | intro {mapper : Mapper} (inner : Rule → Option Mapper) (d : Rule → ℕ)
      (hbuilt : mapper.IsBuilt .asynchronous) (hlets : E.Lets mapper)
      (hleaf : ∀ r ∈ mapper.rules, inner r = none → E.TakesAt m (d r) (r.evaluate source))
      (hcompute : ∀ r ∈ mapper.rules, ∀ q, inner r = some q → r.compute = q.compute .asynchronous)
      (hinner : ∀ r ∈ mapper.rules, ∀ q, inner r = some q → Lasts E m source q (d r)) :
    Lasts E m source mapper ((mapper.rules.map d).foldr max 0)

theorem Company.Lasts.takesAt {E : Company} {m : Machine} (hm : E.holds m) {source : Value}
    (hsource : source ≠ .null) {mapper : Mapper} {d : ℕ} (h : E.Lasts m source mapper d) :
    E.TakesAt m d (mapper.transform source).asCoroutine := by
  induction h with
  | @intro mapper inner d hbuilt hlets hleaf hcompute _ ih =>
    refine TakesAt.transform hm hlets hbuilt.rules_ne_nil hsource fun r hr ↦ ?_
    cases hinner : inner r with
    | none => exact hleaf r hr hinner
    | some q =>
      have hevaluate : r.evaluate source = (q.transform source).asCoroutine := by
        rw [Rule.evaluate, hcompute r hr q hinner]
        rfl
      exact hevaluate ▸ ih r hr q hinner

/-- Rules go together. Mappers that builders have made are the computes of each other's rules, to
any depth, and a call of the outermost takes turns on whatever machines it meets, as a whole or in
parts that are resumed in any order. At each level, all rules start in the order of registration
before one of them takes another turn, each of them once; the call does not end while a rule has
not, and when all have, it ends with its next turn, whatever the machine is like (`Unfolds`). If in
some company each compute that is no mapper ends a certain time after it is called on a machine, a
call on that machine ends after the longest of these times, where an inner mapper takes the longest
of its own; so it does when it is the only call. -/
theorem Mapper.rules_go_together {mapper : Mapper} {source : Value} (hsource : source ≠ .null)
    (hlayers : Mapper.Layered Mapper.IsBuilt (fun _ _ ↦ True) mapper .asynchronous) :
    (∀ ms q,
      Story.Follows Machine.Turn ((mapper.function .asynchronous).run [source]) ms q →
        Unfolds source (.call mapper .asynchronous) ms q) ∧
    ∀ (E : Company) (m : Machine) (d : ℕ), E.holds m → E.Lasts m source mapper d →
      E.TakesAt m d ((mapper.function .asynchronous).run [source]) ∧
      m.SettlesAt (.fresh ((mapper.function .asynchronous).run [source])) m.store.now
        (m.store.now + d) := by
  refine ⟨fun ms q hfollows ↦ hlayers.unfolds hsource rfl hfollows, fun E m d hm hlasts ↦ ?_⟩
  have htakes : E.TakesAt m d ((mapper.function .asynchronous).run [source]) :=
    hlasts.takesAt hm hsource
  exact ⟨htakes, htakes.settlesAt hm⟩

namespace Sample

/-- What fills a future at 250. -/
def alarm : Proc := .sleeping 250 fun _ ↦ Prog.give (.text "ring")

def rung : Outcome := .ok (.text "ring")

theorem advance_alarm_of_le {m : Machine} (h : 250 ≤ m.store.now) :
    Machine.advance alarm m = (m, .settled rung) := if_pos h

theorem advance_alarm_of_not_le {m : Machine} (h : ¬ 250 ≤ m.store.now) :
    Machine.advance alarm m = (m, alarm) := if_neg h

/-- A compute that is the future itself. -/
def ringing : Compute := .literal (.awaitable .future 0)

/-- A machine on which the alarm is set. -/
def clock : Machine :=
  { machine with tasks := #[alarm], store := { machine.store with futures := #[⟨false, none⟩] } }

/-- The alarm is set or has rung, and nothing else runs in the background. The future may have been
noted for the phone. -/
structure Ticks (m : Machine) : Prop where
  types : m.store.types = [contactType, personType]
  strays : m.strays = []
  shared : m.store.shared = [] ∨ m.store.shared = [(⟨1, 0⟩, .awaitable .future 0)]
  task : m.tasks = #[alarm] ∧ m.store.futures = #[⟨false, none⟩] ∨
    m.tasks = #[.settled rung] ∧ m.store.futures = #[⟨false, some rung⟩]

namespace Ticks

variable {m : Machine}

theorem of_sameBelow {base : ℕ} {s : Store} (h : Ticks m) (hs : m.store.SameBelow base s) :
    Ticks { m with store := s } where
  types := hs.types.trans h.types
  strays := h.strays
  shared := hs.shared ▸ h.shared
  task := hs.futures ▸ h.task

/-- While the future is open, the alarm is what wakes next. -/
theorem bound_eq (h : Ticks m) (hopen : m.future? 0 = none) : m.bound none = some 250 := by
  obtain ⟨htasks, _⟩ | ⟨_, hfutures⟩ := h.task
  · simp [Machine.bound, htasks, h.strays, alarm, Machine.firstWake?, Machine.wake?,
      Machine.earlier]
  · rw [Machine.future?, hfutures] at hopen
    cases hopen

/-- The background is at rest after a round, in which the alarm rings if it is time. -/
theorem background (h : Ticks m) : Ticks m.background ∧ m.background.store.now = m.store.now ∧
    m.background.IsQuiet ∧
    (m.background.future? 0 = m.future? 0 ∨ 250 ≤ m.store.now ∧
      m.background.future? 0 = some rung) := by
  obtain ⟨store, functions, bodies, tasks, customs, strays⟩ := m
  obtain ⟨now, nextId, types, records, bindings, compiled, shared, coroutines, futures, customs',
    trace, log, lookups⟩ := store
  obtain ⟨htypes, hstrays, hshared, ⟨htasks, hfutures⟩ | ⟨htasks, hfutures⟩⟩ := h
  · cases hstrays
    cases htasks
    cases hfutures
    by_cases hnow : 250 ≤ now
    · rw [Machine.background_eq_writeBack rfl (advance_alarm_of_le hnow) rfl]
      exact ⟨⟨htypes, rfl, hshared, Or.inr ⟨rfl, rfl⟩⟩, rfl, ⟨rfl, rfl⟩, Or.inr ⟨hnow, rfl⟩⟩
    · rw [Machine.background_eq_writeBack rfl (advance_alarm_of_not_le hnow) rfl]
      refine ⟨⟨htypes, rfl, hshared, Or.inl ⟨rfl, rfl⟩⟩, rfl, ⟨?_, rfl⟩, Or.inl rfl⟩
      exact (Bool.or_false _).trans (decide_eq_false hnow)
  · cases hstrays
    cases htasks
    cases hfutures
    rw [Machine.background_eq_writeBack (q := .settled rung) rfl rfl rfl]
    exact ⟨⟨htypes, rfl, hshared, Or.inr ⟨rfl, rfl⟩⟩, rfl, ⟨rfl, rfl⟩, Or.inl rfl⟩

end Ticks

/-- The company of the alarm: it rings when it is time, and stays so. -/
def ticking : Company where
  base := 0
  holds := Ticks
  base_le _ := Nat.zero_le _
  stable hm h := hm.of_sameBelow h
  work m m' := m'.store.now = m.store.now ∧ Ticks m' ∧
    (m'.future? 0 = m.future? 0 ∨ 250 ≤ m.store.now ∧ m'.future? 0 = some rung)
  refl hm := ⟨rfl, hm, Or.inl rfl⟩
  trans h h' := by
    refine ⟨h'.1.trans h.1, h'.2.1, ?_⟩
    rcases h'.2.2 with heq | ⟨hnow, hrung⟩
    · exact heq ▸ h.2.2
    · exact Or.inr ⟨h.1 ▸ hnow, hrung⟩
  holds_of_work _ h := h.2.1
  now_eq h := h.1
  own hm h := ⟨h.now, hm.of_sameBelow h, Or.inl (by simp only [Machine.future?, h.futures])⟩
  passes hm := ⟨hm.types, hm.strays, hm.shared, hm.task⟩
  background hm := ⟨hm.background.2.1, hm.background.1, hm.background.2.2.2⟩
  rests hm := ⟨1, hm.background.2.2.1⟩

/-- The alarm is set, or it is 250. -/
theorem fills_alarm : ticking.Fills 0 250 fun m ↦
    Ticks m ∧ m.store.now ≤ 250 ∧ ((m.future? 0).isSome → 250 ≤ m.store.now) where
  holds h := h.1
  le h := h.2.1
  ge h hfilled := h.2.2 hfilled
  work {m m'} h hwork := by
    obtain ⟨hnow, hticks, hfuture⟩ := hwork
    refine ⟨hticks, hnow ▸ h.2.1, fun hfilled ↦ hnow ▸ ?_⟩
    rcases hfuture with heq | ⟨hdue, _⟩
    · exact h.2.2 (heq ▸ hfilled)
    · exact hdue
  stays h hwork hfilled := by
    rcases hwork.2.2 with heq | ⟨_, hrung⟩
    · exact heq ▸ hfilled
    · simp [hrung]
  wakes h hopen _ := by simp [h.1.bound_eq hopen]
  passes {m now} h hopen _ hpass := by
    refine ⟨ticking.passes h.1, hpass.2 250 (h.1.bound_eq hopen), fun hfilled ↦ ?_⟩
    exact absurd hfilled (by simp [show (m.later now).future? 0 = none from hopen])

theorem takes_text {E : Company} {r : Rule} {t : String} (source : Value)
    (hr : r.evaluate source = (Prog.give (.text t)).andThen Compute.await) :
    E.Takes 0 (r.evaluate source) :=
  .of_endsAtOnce fun m hm ↦ ⟨m, .ok (.text t), hr ▸ rfl, E.refl hm⟩

theorem takes_slow {E : Company} {r : Rule} (source : Value)
    (hr : r.evaluate source = (Prog.sleep 100 fun _ ↦ Prog.give (.text "last")).asCoroutine) :
    E.Takes 100 (r.evaluate source) := by
  have hgive : E.Takes 0 (Prog.give (.text "last")) :=
    .of_endsAtOnce fun m hm ↦ ⟨m, _, rfl, E.refl hm⟩
  rw [hr]
  have hsleep : E.Takes (100 + 0) (Prog.sleep 100 fun _ ↦ Prog.give (.text "last")) :=
    Company.Takes.sleep hgive
  exact fun m hm ↦ (hsleep m hm).bind hm Company.endsAtOnce_guarded

theorem ticks_clock : Ticks clock := ⟨rfl, rfl, Or.inl rfl, Or.inl ⟨rfl, rfl⟩⟩

def ringingRule : Rule := ⟨.field, ⟨⟨["phone"]⟩, ⟨1, 0⟩⟩, ringing⟩

/-- The phone comes when the alarm rings. -/
theorem takes_ringing (source : Value) :
    ticking.TakesAt clock 250 (ringingRule.evaluate source) := by
  refine fills_alarm.takesAt ⟨ticks_clock, by decide, nofun⟩ rfl (Or.inr rfl) fun m hm ↦ ?_
  obtain ⟨htypes, hstrays, hshared, htask⟩ := hm.1
  obtain ⟨store, functions, bodies, tasks, customs, strays⟩ := m
  obtain ⟨now, nextId, types, records, bindings, compiled, shared, coroutines, futures, customs',
    trace, log, lookups⟩ := store
  rcases hshared with hshared | hshared <;> cases hshared
  · exact ⟨_, rfl, rfl, ⟨htypes, hstrays, Or.inr rfl, htask⟩, Or.inl rfl⟩
  · exact ⟨_, rfl, rfl, ⟨htypes, hstrays, Or.inr rfl, htask⟩, Or.inl rfl⟩

theorem lasts_contact (source : Value) :
    ticking.Lasts clock source (contactBuilder ringing).snapshot 250 :=
  .intro (fun _ ↦ none) (fun r ↦ if r.key = "target.phone" then 250 else 100)
    ⟨contactBuilder ringing, rfl⟩
    (.of_base_eq_zero rfl fun _ hm ↦ ⟨_, _, construct_contact hm.types⟩)
    (List.forall_mem_cons.mpr ⟨fun _ ↦ takes_ringing source,
      List.forall_mem_singleton.mpr fun _ ↦ takes_slow source rfl clock ticks_clock⟩)
    nofun nofun

theorem lasts_person (source : Value) :
    ticking.Lasts clock source (personBuilder ringing).snapshot 250 := by
  let inner (r : Rule) : Option Mapper :=
    if r.key = "target.contact" then some (contactBuilder ringing).snapshot else none
  have hname : inner nameRule = none := rfl
  have hinner : inner (contactRule ringing) = some (contactBuilder ringing).snapshot := rfl
  refine .intro inner (fun r ↦ if r.key = "target.contact" then 250 else 0)
    ⟨personBuilder ringing, rfl⟩
    (.of_base_eq_zero rfl fun _ hm ↦ ⟨_, _, construct_person hm.types⟩)
    (List.forall_mem_cons.mpr ⟨fun _ ↦ takes_text source rfl clock ticks_clock,
      List.forall_mem_singleton.mpr ?_⟩)
    (List.forall_mem_cons.mpr ⟨fun _ h ↦ ?_, List.forall_mem_singleton.mpr fun _ h ↦ ?_⟩)
    (List.forall_mem_cons.mpr ⟨fun _ h ↦ ?_, List.forall_mem_singleton.mpr fun _ h ↦ ?_⟩)
  · exact fun h ↦ nomatch hinner.symm.trans h
  · cases hname.symm.trans h
  · cases hinner.symm.trans h
    rfl
  · cases hname.symm.trans h
  · cases hinner.symm.trans h
    exact lasts_contact source

/-- The call of a mapper of persons. -/
def ringingCall : Prog :=
  ((personBuilder ringing).snapshot.function .asynchronous).run [.int 1]

/-- A person takes as long as the phone, which is a rule of its contact. -/
theorem person_takes_the_longest :
    (∃ ms v, Story.Follows Machine.Turn ringingCall ms (.settled (.ok v)) ∧ ms.length = 4 ∧
      Unfolds (.int 1) (.call (personBuilder ringing).snapshot .asynchronous) ms
        (.settled (.ok v))) ∧
    ticking.TakesAt clock 250 ringingCall ∧ clock.SettlesAt (.fresh ringingCall) 0 250 := by
  have hlayered : Mapper.Layered Mapper.IsBuilt (fun _ _ ↦ True)
      (personBuilder ringing).snapshot .asynchronous :=
    layered_person
      (.intro (fun _ ↦ none) ⟨contactBuilder ringing, rfl⟩ (fun _ _ _ ↦ trivial) nofun nofun nofun)
      ⟨personBuilder ringing, rfl⟩ trivial
  obtain ⟨hunfolds, htime⟩ :=
    Mapper.rules_go_together (nofun : Value.int 1 ≠ .null) hlayered
  refine ⟨?_, htime ticking clock 250 ticks_clock (lasts_person (.int 1))⟩
  have h₁ : Story.Follows Machine.Turn ringingCall _ _ :=
    Story.Follows.fresh.move (.whole nofun (rfl : Machine.advance _ clock = _))
  have h₂ := h₁.move (.whole (q := .joining false [_, _] _) nofun
    (rfl : Machine.advance _ (clock.run ringingCall).1 = _))
  have h₃ := h₂.move (.whole (q := .joining false [.settled _, .joining false [_, _] _] _) nofun
    (rfl : Machine.advance _ (clock.run ringingCall).1 = _))
  have h₄ := h₃.move (.whole (q := .settled (.ok _)) nofun
    (rfl : Machine.advance _ ((clock.run ringingCall).1.later 250).background = _))
  exact ⟨_, _, h₄, rfl, hunfolds _ _ h₄⟩

end Sample

end Recast
