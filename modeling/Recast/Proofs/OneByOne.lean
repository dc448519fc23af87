import Recast.Proofs.Sharing
import Recast.Proofs.InTurn

/-!
The synchronous mapper calls its computes one by one. It is made from any rules but asynchronous
ones. That refuses nothing that could be of use as long as computes do what they show: an
asynchronous rule with such a compute can never be applied without waiting
(`Rule.exists_fault_of_isAsync`). But a function or an object that was given a coroutine function as
its attribute `__call__` is taken for asynchronous, although calls of it never look at the attribute
(`Sample.misread_is_refused_and_usable`). Called, the mapper calls each compute once and writes what
it gives, in order, up to the first rule that fails to; later computes are not called, and an
awaitable is closed instead of being written or given (`Mapper.OneByOne`).
-/

set_option autoImplicit false

namespace Recast

/-! ### Rules that would have to be awaited -/

/-- A compute does what it shows: a function that is taken as it is says rightly whether calls of it
give coroutines, and the attribute `__call__` of an object is what a call of the object runs. -/
def Compute.Matches (m : Machine) : Compute → Prop
  | .literal (.function f coroutines) => ∀ g, m.functions[f]? = some g → g.asynchronous = coroutines
  | .wrapped inner => inner.Matches m
  | .object shown coroutines _ => shown = coroutines
  | _ => True

theorem Machine.run_call_of_none {m : Machine} {f : ℕ} (hf : m.functions[f]? = none)
    (args : List Value) : ∃ fault, m.run (.call f args .done) =
      ((m.newFault fault).2, .settled (.error ⟨m.store.nextId, fault⟩)) := by
  refine ⟨.operand (.notCallable "NoneType"), ?_⟩
  change execWith (exec (depthLimit - 1)) _ m = _
  rw [execWith, hf]
  rfl

/-- Calling an asynchronous function makes a coroutine. -/
theorem Machine.run_call_of_asynchronous {m : Machine} {f : ℕ} {g : Function}
    (hf : m.functions[f]? = some g) (hg : g.asynchronous = true) (args : List Value) :
    m.run (.call f args .done) = ((m.addCoroutine (g.run args)).2,
      .settled (.ok (.awaitable .coroutine m.bodies.size))) := by
  change execWith (exec (depthLimit - 1)) _ m = _
  rw [execWith, hf]
  dsimp only
  rw [if_pos hg]
  rfl

namespace Compute

/-- Wrappings are looked through, however many there are. -/
theorem isAsync_wrapped (c : Compute) : (wrapped c).isAsync = c.isAsync := rfl

theorem isAsync_function (f : ℕ) (coroutines : Bool) :
    (literal (.function f coroutines)).isAsync = coroutines := by cases coroutines <;> rfl

/-- Of an object, only the attribute is looked at. -/
theorem isAsync_object (shown asynchronous : Bool) (run : Value → Prog) :
    (object shown asynchronous run).isAsync = shown := rfl

/-- Calling an asynchronous compute that does what it shows gives an awaitable, if it gives
anything. -/
theorem exists_run_invoke {c : Compute} (hc : c.isAsync = true) {m : Machine} (hm : c.Matches m)
    (source : Value) : ∃ m' o, m.run (c.invoke source) = (m', .settled o) ∧
      ∀ v, o = .ok v → v.isAwaitable = true := by
  induction c with
  | literal v =>
    cases v with
    | function f coroutines =>
      obtain rfl : coroutines = true := (isAsync_function f coroutines).symm.trans hc
      cases hf : m.functions[f]? with
      | none =>
        obtain ⟨fault, hrun⟩ := Machine.run_call_of_none hf [source]
        exact ⟨_, _, hrun, nofun⟩
      | some g =>
        exact ⟨_, _, Machine.run_call_of_asynchronous hf (hm g hf) [source], by rintro v ⟨⟩; rfl⟩
    | _ => cases hc
  | asynchronous run => exact ⟨_, _, rfl, by rintro v ⟨⟩; rfl⟩
  | wrapped inner ih => exact ih (isAsync_wrapped inner ▸ hc) hm
  | object shown asynchronous run =>
    obtain rfl : shown = asynchronous := hm
    obtain rfl : shown = true := (isAsync_object shown shown run).symm.trans hc
    exact ⟨_, _, rfl, by rintro v ⟨⟩; rfl⟩
  | plain | constructor | stream => cases hc

end Compute

namespace Rule

variable {r : Rule} {source target v : Value} {m m₁ : Machine}

/-- The compute of an asynchronous rule gives an awaitable, if it gives anything. -/
theorem exists_run_obtain (hr : r.isAsync = true) (hm : m.IsRegular)
    (hmatches : r.compute.Matches m)
    (source : Value) : ∃ m' o, m.run (r.obtain source) = (m', .settled o) ∧
      ∀ v, o = .ok v → v.isAwaitable = true := by
  rcases Bool.or_eq_true _ _ ▸ hr with hawaitable | hasync
  · cases hcompute : r.compute with
    | literal v =>
      rw [hcompute] at hawaitable
      cases v with
      | awaitable kind id =>
        let w : OneShot := ⟨r.binder.cell, kind, id, Prog.give .null⟩
        have hobtain : r.obtain source = shareOnce w.cell w.value := by
          rw [obtain, hcompute]
          rfl
        obtain ⟨m', f, hrun, ⟨i, hf | hf⟩, _⟩ :=
          w.exists_execWith_shareOnce (Machine.exec (Machine.depthLimit - 1)) hm
        · exact ⟨m', .ok f, hobtain ▸ hrun, by rintro v ⟨⟩; rw [hf]; rfl⟩
        · exact ⟨m', .ok f, hobtain ▸ hrun, by rintro v ⟨⟩; rw [hf]; rfl⟩
      | _ => cases hawaitable
    | _ =>
      rw [hcompute] at hawaitable
      cases hawaitable
  · have hobtain : r.obtain source = r.compute.invoke source := by
      unfold obtain
      cases hcompute : r.compute with
      | literal v =>
        cases v with
        | function => rfl
        | _ =>
          rw [hcompute] at hasync
          cases hasync
      | _ => rfl
    exact hobtain ▸ Compute.exists_run_invoke hasync hmatches source

/-- An awaitable is closed and refused. -/
theorem run_applySync_awaitable (hcompute : m.run (r.obtain source) = (m₁, .settled (.ok v)))
    (hv : v.isAwaitable = true) (target : Value) :
    m.run (r.applySync source target) =
      ({ m₁ with store := (Action.fail (α := Value) (Fault.asynchronousRule [r.key])
          (Machine.closeAwaitable v m₁.store)).2 },
        .settled (.error ⟨(Machine.closeAwaitable v m₁.store).nextId,
          Fault.asynchronousRule [r.key]⟩)) := by
  rw [applySync, Prog.andThen, Machine.run_bind, hcompute, Machine.goOn]
  dsimp only
  rw [if_pos hv]
  rfl

/-- An asynchronous rule whose compute does what it shows can never be applied without waiting. -/
theorem exists_fault_of_isAsync (hr : r.isAsync = true) (hm : m.IsRegular)
    (hmatches : r.compute.Matches m) (source target : Value) :
    ∃ m' e, m.run (r.applySync source target) = (m', .settled (.error e)) := by
  obtain ⟨m', o, hrun, hawaitable⟩ := exists_run_obtain hr hm hmatches source
  cases o with
  | error e => exact ⟨m', e, run_applySync_error hrun⟩
  | ok v => exact ⟨_, _, run_applySync_awaitable hrun (hawaitable v rfl) target⟩

/-- Calls of the compute return or raise: nothing in it is waited for. -/
def Returns (r : Rule) (source : Value) : Prop :=
  ∀ m : Machine, ∃ m' o, m.run (r.obtain source) = (m', .settled o)

end Rule

/-! ### One by one -/

/-- Each compute was called once, gave a value that is no awaitable, and that was written before the
next one was called. -/
inductive Rule.Written (source target : Value) :
    Machine → List Rule → List Value → Machine → Prop
  | nil (m : Machine) : Written source target m [] [] m
  | cons {m m₁ m₂ m' : Machine} {r : Rule} {rest : List Rule} {v w : Value} {ws : List Value}
      (hcompute : m.run (r.obtain source) = (m₁, .settled (.ok v))) (hv : v.isAwaitable = false)
      (hwrite : m₁.run (r.write target v) = (m₂, .settled (.ok w)))
      (h : Written source target m₂ rest ws m') :
      Written source target m (r :: rest) (w :: ws) m'

/-- A rule fails: its compute raises, or gives an awaitable, which is closed, or its write fails. -/
inductive Rule.Fails (source target : Value) : Machine → Rule → Machine → Raised → Prop
  | raised {m m' : Machine} {r : Rule} {e : Raised}
      (hcompute : m.run (r.obtain source) = (m', .settled (.error e))) :
      Fails source target m r m' e
  | awaitable {m m₁ : Machine} {r : Rule} {v : Value} {s : Store}
      (hcompute : m.run (r.obtain source) = (m₁, .settled (.ok v))) (hv : v.isAwaitable = true)
      (hclosed : s = Machine.closeAwaitable v m₁.store) :
      Fails source target m r { m₁ with store := { s with nextId := s.nextId + 1 } }
        ⟨s.nextId, Fault.asynchronousRule [r.key]⟩
  | unwritten {m m₁ m' : Machine} {r : Rule} {v : Value} {e : Raised}
      (hcompute : m.run (r.obtain source) = (m₁, .settled (.ok v))) (hv : v.isAwaitable = false)
      (hwrite : m₁.run (r.write target v) = (m', .settled (.error e))) :
      Fails source target m r m' e

namespace Rule

variable {r : Rule} {source target : Value} {m m' m'' : Machine} {rules rest : List Rule}
  {ws : List Value}

/-- A rule whose compute returns writes a value or fails. -/
theorem Returns.written_or_fails (h : r.Returns source) (target : Value) (m : Machine) :
    (∃ m' w, m.run (r.applySync source target) = (m', .settled (.ok w)) ∧
      Written source target m [r] [w] m') ∨
    ∃ m' e, m.run (r.applySync source target) = (m', .settled (.error e)) ∧
      Fails source target m r m' e := by
  obtain ⟨m₁, o, hcompute⟩ := h m
  cases o with
  | error e => exact Or.inr ⟨m₁, e, run_applySync_error hcompute, .raised hcompute⟩
  | ok v =>
    by_cases hv : v.isAwaitable = true
    · exact Or.inr ⟨_, _, run_applySync_awaitable hcompute hv target, .awaitable hcompute hv rfl⟩
    · have hv : v.isAwaitable = false := by simpa using hv
      have happly : m.run (r.applySync source target) = m₁.run (r.write target v) :=
        run_applySync_ok hcompute hv
      rcases hwrite : m₁.act (r.binder.write target v) with ⟨o, m₂⟩
      have hrun : m₁.run (r.write target v) = (m₂, .settled o) := by
        rw [write, Machine.run_ofAction, hwrite]
      rw [hrun] at happly
      cases o with
      | error e => exact Or.inr ⟨m₂, e, happly, .unwritten hcompute hv hrun⟩
      | ok w => exact Or.inl ⟨m₂, w, happly, .cons hcompute hv hrun (.nil m₂)⟩

theorem Written.append {w : Value} (h : Written source target m [r] [w] m')
    (hrest : Written source target m' rest ws m'') :
    Written source target m (r :: rest) (w :: ws) m'' := by
  cases h with
  | cons hcompute hv hwrite hnil =>
    cases hnil
    exact .cons hcompute hv hwrite hrest

/-- Run one after the other, rules whose computes return write their values, up to the first that
fails. -/
theorem run_sequence_applySync (hreturns : ∀ r ∈ rules, r.Returns source) (target : Value)
    (m : Machine) (f : List Value → Prog) :
    (∃ m' ws, Written source target m rules ws m' ∧
      m.run (Prog.sequence (rules.map fun r ↦ r.applySync source target) f) = m'.run (f ws)) ∨
    ∃ before r after ws m₁ m' e, rules = before ++ r :: after ∧
      Written source target m before ws m₁ ∧ Fails source target m₁ r m' e ∧
      m.run (Prog.sequence (rules.map fun r ↦ r.applySync source target) f) =
        (m', .settled (.error e)) := by
  induction rules generalizing m f with
  | nil => exact Or.inl ⟨m, [], .nil m, rfl⟩
  | cons r rest ih =>
    obtain ⟨hr, hrest⟩ := List.forall_mem_cons.mp hreturns
    rw [List.map_cons, Prog.sequence, Prog.andThen, Machine.run_bind]
    rcases hr.written_or_fails target m with ⟨m₁, w, hrun, hwritten⟩ | ⟨m', e, hrun, hfails⟩
    · rw [hrun, Machine.goOn]
      rcases ih hrest m₁ fun vs ↦ f (w :: vs) with
        ⟨m', ws, hmore, hend⟩ | ⟨before, q, after, ws, m₂, m', e, rfl, hmore, hfails, hend⟩
      · exact Or.inl ⟨m', w :: ws, hwritten.append hmore, hend⟩
      · exact Or.inr ⟨r :: before, q, after, w :: ws, m₂, m', e, rfl, hwritten.append hmore,
          hfails, hend⟩
    · rw [hrun, Machine.goOn, Machine.run_raise]
      exact Or.inr ⟨[], r, rest, [], m, m', e, rfl, .nil m, hfails, rfl⟩

/-- What was written is the target, or was given by a compute: no awaitable in either case. -/
theorem Written.isAwaitable_eq_false (h : Written source target m rules ws m')
    (htarget : target.isAwaitable = false) : ∀ w ∈ ws, w.isAwaitable = false := by
  induction h with
  | nil => exact nofun
  | @cons _ m₁ _ _ r _ v w _ _ hv hwrite _ ih =>
    refine List.forall_mem_cons.mpr ⟨?_, ih⟩
    have hstore : (r.binder.slot.write target v (r.binder.compiled m₁.store)).1 = .ok w := by
      rw [write, Machine.run_ofAction, Machine.act, r.binder_write] at hwrite
      exact Proc.settled.inj (Prod.ext_iff.mp hwrite).2
    rcases Slot.eq_or_eq_of_write hstore with rfl | rfl
    · exact htarget
    · exact hv

end Rule

namespace Mapper

/-- How the synchronous mapper uses its rules: it makes a target, or fails to and calls nothing;
then each rule computes once and writes once, in order, until all have or one fails. No awaitable
is given. -/
inductive OneByOne (mapper : Mapper) (source : Value) (m : Machine) : Machine → Outcome → Prop
  | unmade {s : Store} {e : Raised}
      (hmade : Action.construct mapper.target m.store = (.error e, s)) :
      OneByOne mapper source m { m with store := s } (.error e)
  | filled {target : Value} {built : Store} {m' : Machine} {ws : List Value}
      (hmade : Action.construct mapper.target m.store = (.ok target, built))
      (hwritten : Rule.Written source target { m with store := built } mapper.rules ws m')
      (hv : (mapper.result target ws).isAwaitable = false) :
      OneByOne mapper source m m' (.ok (mapper.result target ws))
  | stopped {target : Value} {built : Store} {before after : List Rule} {r : Rule}
      {ws : List Value} {m₁ m' : Machine} {e : Raised}
      (hmade : Action.construct mapper.target m.store = (.ok target, built))
      (hrules : mapper.rules = before ++ r :: after)
      (hwritten : Rule.Written source target { m with store := built } before ws m₁)
      (hfails : Rule.Fails source target m₁ r m' e) : OneByOne mapper source m m' (.error e)

theorem exists_oneByOne (mapper : Mapper) {source : Value} (hsource : source ≠ .null)
    (hreturns : ∀ r ∈ mapper.rules, r.Returns source) (m : Machine) :
    ∃ m' o, m.run (mapper.transformSync source) = (m', .settled o) ∧
      mapper.OneByOne source m m' o := by
  rcases hmade : Action.construct mapper.target m.store with ⟨result, built⟩
  cases result with
  | error e => exact ⟨_, _, mapper.run_transformSync_error hsource hmade, .unmade hmade⟩
  | ok target =>
    rw [mapper.run_transformSync hsource hmade]
    rcases Rule.run_sequence_applySync hreturns target { m with store := built } fun results ↦
        Prog.give (mapper.result target results) with
      ⟨m', ws, hwritten, hrun⟩ | ⟨before, r, after, ws, m₁, m', e, hrules, hwritten, hfails, hrun⟩
    · have htarget := (Action.isOrdinary_of_construct hmade).1
      exact ⟨m', _, hrun, .filled hmade hwritten (Setting.isAwaitable_result mapper htarget
        (hwritten.isAwaitable_eq_false htarget))⟩
    · exact ⟨m', _, hrun, .stopped hmade hrules hwritten hfails⟩

end Mapper

/-! ### The synchronous path -/

namespace Builder

/-- What the synchronous path keeps to. -/
structure KeepsSynchronous (b : Builder) : Prop where
  /-- A mapper is made exactly from rules none of which is asynchronous; -/
  made : ∀ mapper, b.buildSync = .ok mapper ↔
    b.rules ≠ [] ∧ (∀ r ∈ b.rules, r.isAsync = false) ∧ mapper = b.snapshot
  empty : b.buildSync = .error .noRules ↔ b.rules = []
  /-- otherwise the asynchronous ones are listed in order. -/
  asynchronous : ∀ keys, b.buildSync = .error (.asynchronous keys) ↔
    (∃ r ∈ b.rules, r.isAsync = true) ∧ keys = (b.rules.filter Rule.isAsync).map Rule.key
  /-- These could not be applied, whatever the source, if their computes do what they show. -/
  unusable : ∀ r : Rule, r.isAsync = true → ∀ m : Machine, m.IsRegular → r.compute.Matches m →
    ∀ source target, ∃ m' e, m.run (r.applySync source target) = (m', .settled (.error e))
  /-- The mapper calls its computes one by one. -/
  oneByOne : ∀ mapper, b.buildSync = .ok mapper → ∀ source, source ≠ .null →
    (∀ r ∈ b.rules, r.Returns source) → ∀ m : Machine,
      ∃ m' o, m.run (mapper.transformSync source) = (m', .settled o) ∧
        mapper.OneByOne source m m' o

/-- The synchronous path waits for nothing: its mappers are made from synchronous rules, all of
them, and call their computes one by one up to the first failure. Of computes that do what they
show, none is refused that could be called without waiting. -/
theorem synchronous_path_never_waits (b : Builder) : b.KeepsSynchronous where
  made _ := buildSync_eq_ok_iff
  empty := buildSync_eq_noRules_iff
  asynchronous _ := buildSync_eq_asynchronous_iff
  unusable r hr _ hm hmatches source target :=
    r.exists_fault_of_isAsync hr hm hmatches source target
  oneByOne mapper hmapper source hsource hreturns m := by
    obtain ⟨_, _, rfl⟩ := buildSync_eq_ok_iff.mp hmapper
    exact b.snapshot.exists_oneByOne hsource hreturns m

end Builder

namespace Sample

/-- A machine with one type of targets. -/
def lateMachine : Machine :=
  { Machine.empty with
    store := { Store.empty with
      types := [⟨"Target", [("first", .null), ("second", .null)], .open, [], false, none⟩] } }

/-- The second of three rules looks synchronous and gives a coroutine. -/
def lateBuilder : Builder :=
  ((Builder.empty 0 "Source" "Target").push
    ⟨.field, ⟨⟨["first"]⟩, ⟨0, 0⟩⟩, .plain Prog.give⟩).push
      ⟨.field, ⟨⟨["second"]⟩, ⟨0, 1⟩⟩,
        .wrapped (.plain fun source ↦ Compute.coroutine (.give source))⟩
    |>.push ⟨.field, ⟨⟨["third"]⟩, ⟨0, 2⟩⟩, .stream⟩

/-- The mapper is made and stops at the second rule, which is refused. -/
theorem late_one_by_one :
    lateBuilder.buildSync = .ok lateBuilder.snapshot ∧
      (∀ r ∈ lateBuilder.rules, r.Returns (.int 1)) ∧
      (∃ m' o, lateMachine.run (lateBuilder.snapshot.transformSync (.int 1)) = (m', .settled o) ∧
        lateBuilder.snapshot.OneByOne (.int 1) lateMachine m' o) ∧
      (lateMachine.run (lateBuilder.snapshot.transformSync (.int 1))).2 =
        .settled (.error ⟨1, Fault.asynchronousRule ["target.second"]⟩) := by
  have hbuild : lateBuilder.buildSync = .ok lateBuilder.snapshot := rfl
  have hreturns : ∀ r ∈ lateBuilder.rules, r.Returns (.int 1) := by
    intro r hr m
    simp only [lateBuilder, Builder.push, Builder.empty, List.nil_append, List.cons_append,
      List.mem_cons, List.not_mem_nil, or_false] at hr
    rcases hr with rfl | rfl | rfl <;> exact ⟨_, _, rfl⟩
  have hsource : Value.int 1 ≠ .null := fun h ↦ by cases h
  exact ⟨hbuild, hreturns, (Builder.synchronous_path_never_waits lateBuilder).oneByOne _ hbuild _
    hsource hreturns _, rfl⟩

/-- A plain function that was given a coroutine function as its attribute `__call__`. -/
def misreadRule : Rule := ⟨.field, ⟨⟨["first"]⟩, ⟨0, 0⟩⟩, .object true false Prog.give⟩

/-- A builder of this rule makes no synchronous mapper, yet the rule can be applied without waiting,
and writes its value. -/
theorem misread_is_refused_and_usable :
    misreadRule.isAsync = true ∧
      ((Builder.empty 0 "Source" "Target").push misreadRule).buildSync =
        .error (.asynchronous ["target.first"]) ∧
      ∃ m target m', Action.construct "Target" lateMachine.store = (.ok target, m) ∧
        ({ lateMachine with store := m }).run (misreadRule.applySync (.int 1) target) =
          (m', .settled (.ok target)) ∧
        m'.store.field? 0 "first" = some (.int 1) := by
  exact ⟨rfl, rfl, _, _, _, rfl, rfl, rfl⟩

end Sample

end Recast
