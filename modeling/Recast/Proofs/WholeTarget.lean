import Recast.Proofs.Construction
import Recast.Proofs.InTurn
import Recast.Session

/-!
The rule for the whole target on both paths. The synchronous mapper gives what the compute gives and
raises what it raises. The asynchronous mapper keeps the outcome of its rule in a list of results in
which a fault object stands for a failure, and its rule and the mapper itself are coroutines; so a
fault object that the compute gives is raised, and the fault by which an iteration stops becomes
another one (`Surfaces`). All other outcomes are the same on both paths, whatever happens in between
to what is not relied on (`Builder.whole_target_on_both_paths`). The compute has to end at once
where the facts hold that are relied on (`Surroundings.EndsAtOnce`), as one does that reads its
source.
-/

set_option autoImplicit false

namespace Recast

/-! ### The outcome of the compute and the outcome of the mapper -/

/-- What the asynchronous mapper ends in when the compute for the whole target ended in an outcome:
a value that is no fault object is given as it is, a fault object is raised like a fault, and the
fault by which an iteration stops is replaced. -/
inductive Surfaces : Outcome → Outcome → Prop
  | given {o : Outcome} (h : Mapper.failure? o = none) : Surfaces o o
  | raised {o : Outcome} {e : Raised} (h : Mapper.failure? o = some e) (he : ¬ e.StopsIteration) :
    Surfaces o (.error e)
  | stopped {o : Outcome} {e : Raised} (h : Mapper.failure? o = some e) (he : e.StopsIteration)
    (id : ℕ) : Surfaces o (.error ⟨id, .await .stoppedIteration⟩)

/-- The outcome of a compute can be told from its place in a list of results: it is a value that is
no fault object, or a fault that leaves a coroutine as it is. -/
def Mapper.Unmistakable (o : Outcome) : Prop :=
  ∀ e, Mapper.failure? o = some e → o = .error e ∧ ¬ e.StopsIteration

/-- Both paths agree exactly on the outcomes that can be told. -/
theorem Surfaces.eq_iff {o o' : Outcome} (h : Surfaces o o') :
    o' = o ↔ Mapper.Unmistakable o := by
  cases h with
  | given hnone =>
    refine iff_of_true rfl fun e he ↦ ?_
    rw [hnone] at he
    cases he
  | @raised e hsome he =>
    constructor
    · rintro rfl e' he'
      cases he'
      exact ⟨rfl, he⟩
    · exact fun hplain ↦ (hplain e hsome).1.symm
  | @stopped e hsome he id =>
    refine iff_of_false ?_ fun hplain ↦ (hplain e hsome).2 he
    rintro rfl
    cases hsome
    exact not_stopsIteration_await id _ he

namespace Mapper

/-- What becomes of the outcome of the only rule: its failure, or its value. -/
def settle (o : Outcome) : Outcome :=
  match failure? o with
  | some e => .error e
  | none => o

theorem concluded_whole {mapper : Mapper} {r : Rule} (hrules : mapper.rules = [r])
    (hkind : r.kind = .whole) (target : Value) (o : Outcome) :
    mapper.concluded target [o] = settle o := by
  have hwhole : mapper.isWhole = true := by simp [isWhole, hrules, hkind]
  rw [concluded, settle, hrules, List.zip_cons_cons, List.zip_nil_left, firstFailure?]
  cases o with
  | error e => rfl
  | ok v =>
    cases failure? (.ok v) with
    | some e => rfl
    | none => simp [firstFailure?, result, hwhole, value?]

end Mapper

/-- An outcome leaves the rule, is taken from the list of results, and leaves the mapper. -/
theorem surfaces_of_letOut {o o₁ o' : Outcome} (h : LetOut o o₁)
    (h' : LetOut (Mapper.settle o₁) o') :
    Surfaces o o' := by
  cases h with
  | stopped he id =>
    cases h' with
    | same _ => exact .stopped rfl he id
    | stopped he' _ => exact absurd he' (not_stopsIteration_await id _)
  | same hsame =>
    cases hfailure : Mapper.failure? o with
    | none =>
      rw [Mapper.settle, hfailure] at h'
      cases h' with
      | same _ => exact .given hfailure
      | stopped he _ => exact absurd he (hsame _ rfl)
    | some e =>
      rw [Mapper.settle, hfailure] at h'
      cases h' with
      | same he => exact .raised hfailure (he e rfl)
      | stopped he id => exact .stopped hfailure he id

/-! ### The rule -/

/-- Where the facts hold, the compute ends at once, and if in a value, then in one that is no
awaitable. -/
def Surroundings.EndsAtOnce (c : Surroundings) (r : Rule) (source : Value) : Prop :=
  ∀ m, c.holds m → ∃ m' o, m.run (r.obtain source) = (m', .settled o) ∧
    ∀ v, o = .ok v → v.isAwaitable = false

namespace Rule

variable {r : Rule} {source : Value} {m m₁ : Machine} {o : Outcome}

/-- A rule for the whole target gives what its compute gives. -/
theorem exists_finish_whole (hpath : r.slot.path = []) (target : Value) (o : Outcome)
    (m : Machine) :
    ∃ m' o', m.run (r.finish target o) = (m', .settled o') ∧ LetOut o o' := by
  cases o with
  | error e =>
    obtain ⟨_, o', hrun, hout⟩ := m.run_guarded (.error e)
    exact ⟨_, o', hrun, hout⟩
  | ok v =>
    have hvalid : r.slot.IsValid := by simp [Slot.IsValid, hpath]
    have hland := Store.landing_of_path_eq_nil m.store target hpath
    obtain ⟨s, o, hrun, _, ho⟩ := r.run_finish_ok hvalid target v m 0 fun _ _ ↦ Nat.zero_le _
    rw [hland] at ho
    subst ho
    exact ⟨_, _, hrun, .same fun _ he ↦ nomatch he⟩

theorem run_evaluate (hr : r.isAsync = false)
    (hcompute : m.run (r.obtain source) = (m₁, .settled o))
    (hv : ∀ v, o = .ok v → v.isAwaitable = false) :
    m.run (r.evaluate source) = (m₁, .settled o) := by
  rw [evaluate_eq hr, Prog.andThen, Machine.run_bind, hcompute, Machine.goOn]
  cases o with
  | error e => rfl
  | ok v =>
    dsimp only
    rw [Compute.await, hv v rfl]
    rfl

/-- Side by side with others, the rule calls its compute once, in its first move, and ends. -/
theorem exists_apply_whole (hpath : r.slot.path = []) (hr : r.isAsync = false)
    (hcompute : m.run (r.obtain source) = (m₁, .settled o))
    (hv : ∀ v, o = .ok v → v.isAwaitable = false) (target : Value) :
    ∃ m₂ o₁, m.run (r.apply source target) = (m₂, .settled o₁) ∧ LetOut o o₁ := by
  obtain ⟨m₂, o₁, hfinish, hout⟩ := exists_finish_whole hpath target o m₁
  refine ⟨m₂, o₁, ?_, hout⟩
  rw [apply_eq, Machine.run_bind, run_evaluate hr hcompute hv]
  exact hfinish

/-- Without waiting, the rule ends as its compute does. -/
theorem run_applySync_whole (hpath : r.slot.path = [])
    (hcompute : m.run (r.obtain source) = (m₁, .settled o))
    (hv : ∀ v, o = .ok v → v.isAwaitable = false) (target : Value) :
    ∃ m', m.run (r.applySync source target) = (m', .settled o) := by
  cases o with
  | error e => exact ⟨m₁, run_applySync_error hcompute⟩
  | ok v =>
    rw [run_applySync_ok hcompute (hv v rfl), write, Machine.run_ofAction, Machine.act,
      r.binder_write, Slot.write, hpath]
    exact ⟨_, rfl⟩

end Rule

/-! ### The mappers -/

/-- The ways in which a process can go on when between its moves the machine may become any other
where the facts hold. -/
def Surroundings.Amid (c : Surroundings) : Machine × Proc → Machine × Proc → Prop :=
  Relation.ReflTransGen fun s t ↦ Machine.Move s.1 s.2 t.1 t.2 ∨ s.2 = t.2 ∧ c.holds t.1

namespace Mapper

section

variable {c : Surroundings} {mapper : Mapper} {r : Rule} {source target : Value}

/-- How far the mapper has come: its rule has not begun, or has called its compute where the facts
hold and ended, or the mapper has ended too. -/
inductive WholeStage (c : Surroundings) (mapper : Mapper) (r : Rule) (source target : Value) :
    Machine → Proc → Prop
  | waiting {m : Machine} (hm : c.holds m) : WholeStage c mapper r source target m
      ((mapper.gathering source target).bind Prog.guarded)
  | computed {m m₀ m₁ : Machine} {o o₁ : Outcome} (hm₀ : c.holds m₀)
      (hcompute : m₀.run (r.obtain source) = (m₁, .settled o)) (hout : LetOut o o₁) :
    WholeStage c mapper r source target m
      ((Proc.joining false [.settled o₁] (mapper.whenAll target)).bind Prog.guarded)
  | ended {m m₀ m₁ : Machine} {o o' : Outcome} (hm₀ : c.holds m₀)
      (hcompute : m₀.run (r.obtain source) = (m₁, .settled o)) (hout : Surfaces o o') :
    WholeStage c mapper r source target m (.settled o')

theorem run_whenAll (hrules : mapper.rules = [r]) (hkind : r.kind = .whole) (target : Value)
    (o : Outcome) (m : Machine) :
    ∃ m' o', m.run ((mapper.whenAll target (some [o])).bind Prog.guarded) = (m', .settled o') ∧
      LetOut (settle o) o' := by
  obtain ⟨log, hconclude, _⟩ := mapper.run_conclude target [o] m
  rw [Machine.run_bind, whenAll, hconclude, concluded_whole hrules hkind]
  obtain ⟨_, o', hrun, hout⟩ := Machine.run_guarded (settle o) _
  exact ⟨_, o', hrun, hout⟩

theorem WholeStage.move (hrules : mapper.rules = [r]) (hkind : r.kind = .whole)
    (hpath : r.slot.path = []) (hr : r.isAsync = false) (hreturns : c.EndsAtOnce r source)
    {m m' : Machine} {p q : Proc} (h : WholeStage c mapper r source target m p)
    (hmove : Machine.Move m p m' q) : WholeStage c mapper r source target m' q := by
  cases h with
  | waiting hm =>
    rw [gathering, hrules] at hmove
    generalize hparts : (([r].map fun r ↦ r.apply source target).map Proc.fresh) = parts at hmove
    cases hmove with
    | @part _ _ before after p q _ hpart =>
      obtain ⟨rfl, rfl, rfl⟩ : before = [] ∧ p = .fresh (r.apply source target) ∧ after = [] := by
        cases before with
        | nil => simpa [eq_comm] using hparts
        | cons head rest => simp at hparts
      obtain ⟨m₁, o, hcompute, hv⟩ := hreturns m hm
      obtain ⟨m₂, o₁, happly, hout⟩ := Rule.exists_apply_whole hpath hr hcompute hv target
      cases hpart with
      | start hrun =>
        cases happly.symm.trans hrun
        exact .computed hm hcompute hout
    | join hos _ =>
      subst hparts
      cases hos
  | @computed _ _ _ o₁ hm₀ hcompute hout =>
    generalize hparts : [Proc.settled o₁] = parts at hmove
    cases hmove with
    | @part _ _ before after p q _ hpart =>
      have hended : p = .settled o₁ := by
        cases before with
        | nil => exact (List.cons.inj hparts).1.symm
        | cons head rest => simp at hparts
      exact absurd hended (hpart.ne_settled o₁)
    | join hos hrun =>
      subst hparts
      cases hos
      obtain ⟨m₂, o', hend, hlast⟩ := run_whenAll hrules hkind target o₁ m
      cases hend.symm.trans hrun
      exact .ended hm₀ hcompute (surfaces_of_letOut hout hlast)
  | ended hm₀ hcompute hout => exact absurd rfl (hmove.ne_settled _)

/-- What happens in between does not matter where the facts hold. -/
theorem WholeStage.other {m m' : Machine} {p : Proc} (h : WholeStage c mapper r source target m p)
    (hm' : c.holds m') : WholeStage c mapper r source target m' p := by
  cases h with
  | waiting _ => exact .waiting hm'
  | computed hm₀ hcompute hout => exact .computed hm₀ hcompute hout
  | ended hm₀ hcompute hout => exact .ended hm₀ hcompute hout

theorem WholeStage.amid (hrules : mapper.rules = [r]) (hkind : r.kind = .whole)
    (hpath : r.slot.path = []) (hr : r.isAsync = false) (hreturns : c.EndsAtOnce r source)
    {s t : Machine × Proc} (h : WholeStage c mapper r source target s.1 s.2) (hamid : c.Amid s t) :
    WholeStage c mapper r source target t.1 t.2 := by
  induction hamid with
  | refl => exact h
  | tail _ hstep ih =>
    rcases hstep with hmove | ⟨hsame, hholds⟩
    · exact ih.move hrules hkind hpath hr hreturns hmove
    · exact hsame ▸ ih.other hholds

/-- Once it has ended, its rule has called the compute where the facts hold. -/
theorem WholeStage.exists_of_settled {m : Machine} {o' : Outcome}
    (h : WholeStage c mapper r source target m (.settled o')) :
    ∃ (m₁ m₂ : Machine) (o : Outcome), c.holds m₁ ∧ m₁.run (r.obtain source) = (m₂, .settled o) ∧
      Surfaces o o' := by
  generalize hp : Proc.settled o' = p at h
  cases h with
  | waiting _ => exact absurd hp.symm (Proc.bind_ne_settled _ _ _)
  | computed => exact absurd hp.symm (Proc.bind_ne_settled _ _ _)
  | ended hm₀ hcompute hout =>
    cases hp
    exact ⟨_, _, _, hm₀, hcompute, hout⟩

end

section

variable {mapper : Mapper} {r : Rule} {source target : Value} {m m₁ : Machine} {o : Outcome}

/-- In a round of its own the asynchronous mapper calls the compute and ends in what surfaces. -/
theorem exists_advance_whole (hrules : mapper.rules = [r]) (hkind : r.kind = .whole)
    (hpath : r.slot.path = []) (hr : r.isAsync = false)
    (hcompute : m.run (r.obtain source) = (m₁, .settled o))
    (hv : ∀ v, o = .ok v → v.isAwaitable = false) (target : Value) :
    ∃ m₂ o', Machine.advance ((mapper.gathering source target).bind Prog.guarded) m =
      (m₂, .settled o') ∧ Surfaces o o' := by
  obtain ⟨m₂, o₁, happly, hout⟩ := Rule.exists_apply_whole hpath hr hcompute hv target
  obtain ⟨m₃, o', hend, hlast⟩ := run_whenAll hrules hkind target o₁ m₂
  refine ⟨m₃, o', ?_, surfaces_of_letOut hout hlast⟩
  simp only [gathering, hrules, List.map_singleton, Proc.bind, Machine.advance,
    Machine.advanceAll, happly, Proc.outcomes?, Proc.outcome?]
  exact hend

/-- The synchronous mapper ends as the compute does. -/
theorem exists_run_transformSync_whole (hrules : mapper.rules = [r]) (hkind : r.kind = .whole)
    (hpath : r.slot.path = []) (hsource : source ≠ .null) {built : Store}
    (hmade : Action.construct mapper.target m.store = (.ok target, built))
    (hcompute : Machine.run (r.obtain source) { m with store := built } = (m₁, .settled o))
    (hv : ∀ v, o = .ok v → v.isAwaitable = false) :
    ∃ m₂, m.run (mapper.transformSync source) = (m₂, .settled o) := by
  obtain ⟨m₂, hrun⟩ := Rule.run_applySync_whole hpath hcompute hv target
  have hwhole : mapper.isWhole = true := by simp [isWhole, hrules, hkind]
  refine ⟨m₂, ?_⟩
  rw [mapper.run_transformSync hsource hmade, hrules, List.map_singleton, Prog.sequence,
    Prog.andThen, Machine.run_bind, hrun, Machine.goOn]
  cases o with
  | error e => rfl
  | ok v =>
    simp only [Prog.sequence, result, hwhole, if_true]
    rfl

end

end Mapper

namespace Builder

/-- A rule for the whole target is the only one. -/
theorem Consistent.rules_eq_of_whole {b : Builder} (hb : b.Consistent) {r : Rule} (hr : r ∈ b.rules)
    (hkind : r.kind = .whole) : b.rules = [r] := by
  rcases hb.all_field_or_alone with hfield | ⟨only, honly, _⟩
  · rw [hfield r hr] at hkind
    cases hkind
  · rw [honly, List.mem_singleton] at hr
    rw [honly, hr]

/-- The rule for the whole target, whose compute needs no waiting, on both paths. Both mappers can
be made. The synchronous one ends as the compute does. The asynchronous one ends in what surfaces of
the outcome of the compute: in its next round, where the compute is called on the same machine, and
whatever happens to the machine in between where the facts hold. Both end in the same exactly when
the outcome is a value that is no fault object, or a fault other than the one by which an iteration
stops. -/
theorem whole_target_on_both_paths {b : Builder} (hb : b.Registered) {r : Rule} (hr : r ∈ b.rules)
    (hkind : r.kind = .whole) (hsync : r.isAsync = false) {source : Value}
    (hsource : source ≠ .null) {c : Surroundings} (hreturns : c.EndsAtOnce r source) {m : Machine}
    (hm : c.holds m) {target : Value} {built : Store}
    (hmade : Action.construct b.target m.store = (.ok target, built)) :
    ∃ mapper, b.build = .ok mapper ∧ b.buildSync = .ok mapper ∧
      ∃ m₁ o, Machine.run (r.obtain source) { m with store := built } = (m₁, .settled o) ∧
        (∃ m₂, m.run ((Session.syncFunction mapper).run [source]) = (m₂, .settled o)) ∧
        ∃ p, m.run ((Session.asyncFunction mapper).run [source]) = ({ m with store := built }, p) ∧
          (∃ m₂ o', Machine.advance p { m with store := built } = (m₂, .settled o') ∧
            Surfaces o o' ∧ (o' = o ↔ Mapper.Unmistakable o)) ∧
          ∀ m' o', c.Amid ({ m with store := built }, p) (m', .settled o') →
            ∃ (m₁ m₂ : Machine) (o : Outcome), c.holds m₁ ∧
              m₁.run (r.obtain source) = (m₂, .settled o) ∧ Surfaces o o' := by
  have hrules : b.snapshot.rules = [r] := hb.consistent.rules_eq_of_whole hr hkind
  have hpath : r.slot.path = [] := (hb.consistent.kind r hr).mp hkind
  have hbuild : b.build = .ok b.snapshot := by
    rw [build, if_neg (by simpa using List.ne_nil_of_mem hr)]
  have hbuildSync : b.buildSync = .ok b.snapshot :=
    buildSync_eq_ok_iff.mpr ⟨List.ne_nil_of_mem hr, fun q hq ↦ by
      rw [List.mem_singleton.mp (hrules ▸ hq : q ∈ [r]), hsync], rfl⟩
  refine ⟨b.snapshot, hbuild, hbuildSync, ?_⟩
  have hbuilt : c.holds { m with store := built } :=
    c.stable hm (by
      simpa only [hmade] using
        (Action.sameBelow_construct b.target m.store).mono (c.base_le hm))
  obtain ⟨m₁, o, hcompute, hv⟩ := hreturns _ hbuilt
  refine ⟨m₁, o, hcompute, ?_, (b.snapshot.gathering source target).bind Prog.guarded, ?_, ?_, ?_⟩
  · exact Mapper.exists_run_transformSync_whole hrules hkind hpath hsource hmade hcompute hv
  · change m.run ((b.snapshot.transform source).bind Prog.guarded) = _
    rw [Machine.run_bind, b.snapshot.run_transform (by simp [hrules]) hsource hmade]
    rfl
  · obtain ⟨m₂, o', hend, hsurfaces⟩ :=
      Mapper.exists_advance_whole hrules hkind hpath hsync hcompute hv target
    exact ⟨m₂, o', hend, hsurfaces, hsurfaces.eq_iff⟩
  · intro m' o' hamid
    exact (Mapper.WholeStage.amid hrules hkind hpath hsync hreturns (.waiting hbuilt)
      hamid).exists_of_settled

end Builder

namespace Sample

/-- A fault object that is kept as a value. -/
def kept : Fault := .general "ValueError" [.text "kept"]

/-- The rule for the whole target with a fault object as its literal. -/
def keptRule : Rule := ⟨.whole, ⟨⟨[]⟩, ⟨0, 0⟩⟩, .literal (.fault 7 kept)⟩

def keptBuilder : Builder := ⟨0, "Customer", "Person", [keptRule], [("target", ⟨[]⟩)]⟩

theorem registered_keptBuilder : keptBuilder.Registered := by
  have hall : (Builder.empty 0 "Customer" "Person").registerAll
      [(.whole, .text "target", .literal (.fault 7 kept))] = .ok keptBuilder := rfl
  exact (Builder.Registered.empty 0 "Customer" "Person").registerAll (by decide) hall

theorem kept_endsAtOnce (c : Surroundings) (source : Value) : c.EndsAtOnce keptRule source :=
  fun m _ ↦ ⟨m, _, rfl, fun _ hv ↦ Except.ok.inj hv ▸ rfl⟩

/-- The rule for the whole target that reads its source. -/
def readRule : Rule := ⟨.whole, ⟨⟨[]⟩, ⟨0, 0⟩⟩, phoneOf⟩

def readBuilder : Builder := ⟨0, "Contact", "Person", [readRule], [("target", ⟨[]⟩)]⟩

theorem registered_readBuilder : readBuilder.Registered := by
  have hall : (Builder.empty 0 "Contact" "Person").registerAll [(.whole, .text "target", phoneOf)] =
      .ok readBuilder := rfl
  exact (Builder.Registered.empty 0 "Contact" "Person").registerAll
    (by simp [Slot.Descriptor.IsValid]) hall

theorem read_endsAtOnce : held.EndsAtOnce readRule (.record 0 "Contact") :=
  fun m hm ↦ ⟨m, _, execWith_phoneOf (Machine.exec (Machine.depthLimit - 1)) hm,
    fun _ hv ↦ Except.ok.inj hv ▸ rfl⟩

/-- A fault object leaves both ways differently: it cannot be told from a failure. -/
theorem surfaces_kept {o : Outcome} (h : Surfaces (.ok (.fault 7 kept)) o) :
    o = .error ⟨7, kept⟩ := by
  cases h with
  | given hnone => cases hnone
  | raised hsome =>
    cases hsome
    rfl
  | stopped hsome he =>
    cases hsome
    exact absurd he (not_stopsIteration_general 7 "ValueError" _ (by decide))

/-- The synchronous mapper gives the fault object, and the asynchronous one raises it; and both give
the phone that is read from the source, whatever happens to other records in between. -/
theorem kept_surfaces_and_phone_agrees :
    (∃ mapper, keptBuilder.build = .ok mapper ∧ keptBuilder.buildSync = .ok mapper ∧
      (∃ m₂, readMachine.run ((Session.syncFunction mapper).run [.record 0 "Contact"]) =
        (m₂, .settled (.ok (.fault 7 kept)))) ∧
      ∃ p, readMachine.run ((Session.asyncFunction mapper).run [.record 0 "Contact"]) =
          ({ readMachine with store := readBuilt }, p) ∧
        ∀ m' o', held.Amid ({ readMachine with store := readBuilt }, p) (m', .settled o') →
          o' = .error ⟨7, kept⟩) ∧
      ∃ mapper, readBuilder.build = .ok mapper ∧ readBuilder.buildSync = .ok mapper ∧
        (∃ m₂, readMachine.run ((Session.syncFunction mapper).run [.record 0 "Contact"]) =
          (m₂, .settled (.ok (.text "1")))) ∧
        ∃ p, readMachine.run ((Session.asyncFunction mapper).run [.record 0 "Contact"]) =
            ({ readMachine with store := readBuilt }, p) ∧
          ∀ m' o', held.Amid ({ readMachine with store := readBuilt }, p) (m', .settled o') →
            o' = .ok (.text "1") := by
  have hholds : held.holds readMachine := ⟨rfl, rfl⟩
  constructor
  · obtain ⟨mapper, hbuild, hsync, m₁, o, hcompute, hsyncRun, p, hasyncRun, _, hany⟩ :=
      @Builder.whole_target_on_both_paths keptBuilder registered_keptBuilder keptRule
        (List.mem_singleton_self keptRule) rfl rfl (.record 0 "Contact") nofun held
        (kept_endsAtOnce held _) readMachine hholds (.record 2 "Person") readBuilt rfl
    cases hcompute
    refine ⟨mapper, hbuild, hsync, hsyncRun, p, hasyncRun, fun m' o' hamid ↦ ?_⟩
    obtain ⟨m₃, m₄, o₃, _, hcompute, hsurfaces⟩ := hany m' o' hamid
    cases hcompute
    exact surfaces_kept hsurfaces
  · obtain ⟨mapper, hbuild, hsync, m₁, o, hcompute, hsyncRun, p, hasyncRun, _, hany⟩ :=
      @Builder.whole_target_on_both_paths readBuilder registered_readBuilder readRule
        (List.mem_singleton_self readRule) rfl rfl (.record 0 "Contact") nofun held
        read_endsAtOnce readMachine hholds (.record 2 "Person") readBuilt rfl
    cases hcompute
    refine ⟨mapper, hbuild, hsync, hsyncRun, p, hasyncRun, fun m' o' hamid ↦ ?_⟩
    obtain ⟨m₃, m₄, o₃, hm₃, hcompute, hsurfaces⟩ := hany m' o' hamid
    have hphone := execWith_phoneOf (Machine.exec (Machine.depthLimit - 1)) hm₃
    cases hphone.symm.trans hcompute
    exact hsurfaces.eq_iff.mpr nofun

/-- On one machine, from one source, the two mappers of a builder end differently. -/
theorem paths_differ_on_kept :
    ∃ mapper m₁ m₂ m₃ p v e, keptBuilder.build = .ok mapper ∧ keptBuilder.buildSync = .ok mapper ∧
      machine.run (keptRule.obtain (.int 1)) = (machine, .settled (.ok v)) ∧
      machine.run ((Session.syncFunction mapper).run [.int 1]) = (m₁, .settled (.ok v)) ∧
      machine.run ((Session.asyncFunction mapper).run [.int 1]) = (m₂, p) ∧
      Machine.advance p m₂ = (m₃, .settled (.error e)) :=
  ⟨keptBuilder.snapshot, _, _, _, _, .fault 7 kept, ⟨7, kept⟩, rfl, rfl, rfl, rfl, rfl, rfl⟩

end Sample

end Recast
