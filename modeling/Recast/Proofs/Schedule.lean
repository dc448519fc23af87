import Recast.Proofs.Gathering

/-!
The order in which rules are resumed does not matter. A mapper that is run makes its target and
starts its rules (`Mapper.run_transform`); from then on, whoever moves when, it ends as its plan
says (`Builder.ending_in_every_order`). The plan knows nothing of the order: it is the rules, what
their computes promise, and the target as it was made.
-/

set_option autoImplicit false

namespace Recast

namespace Mapper

/-- The target of a mapper is made anew: nothing that there was is changed, the target is no fault
object, and the objects on the paths of the rules are new and told apart by their paths. -/
structure MakesAnew (mapper : Mapper) (s : Store) (target : Value) (built : Store) : Prop where
  made : Action.construct mapper.target s = (.ok target, built)
  old : s.SameBelow s.records.size built
  ordinary : failure? (.ok target) = none
  unaliased : built.Unaliased target (Set.Ico s.records.size built.records.size)
    (mapper.rules.map Rule.slot)

/-- The plan of a mapper whose target has just been made. -/
def plan (mapper : Mapper) (promise : Rule → Promise) (s : Store) (target : Value) (built : Store) :
    Plan :=
  ⟨mapper.rules, promise, target, built, Set.Ico s.records.size built.records.size⟩

/-- The rules of a mapper that have not begun, as the parts of its process. -/
def gathering (mapper : Mapper) (source target : Value) : Proc :=
  .joining false ((mapper.rules.map fun r ↦ r.apply source target).map .fresh)
    (mapper.whenAll target)

/-- A mapper makes its target and starts its rules. -/
theorem run_transform (mapper : Mapper) (hrules : mapper.rules ≠ []) {source : Value}
    (hsource : source ≠ .null) {m : Machine} {target : Value} {built : Store}
    (hmade : Action.construct mapper.target m.store = (.ok target, built)) :
    m.run (mapper.transform source) =
      ({ m with store := built }, mapper.gathering source target) := by
  have htransform : mapper.transform source =
      Prog.first (Action.construct mapper.target) fun target ↦ mapper.fill source target := by
    cases source with
    | null => exact absurd rfl hsource
    | _ => rfl
  have hparts : (mapper.rules.map fun r ↦ r.apply source target) ≠ [] := by simpa using hrules
  rw [htransform, Prog.first, Machine.run_act, Machine.act, hmade]
  dsimp only
  rw [fill_eq, Machine.run_gather hparts]
  rfl

end Mapper

namespace Builder

theorem build_eq_ok {b : Builder} {mapper : Mapper} (h : b.build = .ok mapper) :
    mapper = b.snapshot ∧ b.rules ≠ [] := by
  unfold build at h
  split_ifs at h with hempty
  cases h
  exact ⟨rfl, by simpa using hempty⟩

/-- The plan of a mapper from a consistent builder is sound when the target is made anew. -/
theorem Consistent.isSound {b : Builder} (hb : b.Consistent) {s : Store} {target : Value}
    {built : Store} (hmakes : b.snapshot.MakesAnew s target built) (promise : Rule → Promise)
    {base : ℕ} (hbase : base ≤ s.records.size) :
    (b.snapshot.plan promise s target built).IsSound base where
  valid := hb.valid
  apart := hb.apart
  kind := by
    rcases hb.all_field_or_alone with hfield | ⟨r, hrules, hwhole⟩
    · exact Or.inl fun r hr ↦ ⟨hfield r hr, hb.path_ne_nil hr (hfield r hr)⟩
    · exact Or.inr ⟨r, hrules, hwhole, (hb.kind r (hrules ▸ List.mem_singleton_self r)).mp hwhole⟩
  ordinary := hmakes.ordinary
  fresh := Set.Ico_subset_Ico_left hbase
  unaliased := hmakes.unaliased

/-- Whoever moves when, a mapper that has started its rules ends as its plan says, and once all
rules have ended, it ends with its next move. -/
theorem Consistent.ending_of_run {c : Surroundings} {b : Builder} (hb : b.Consistent)
    {source : Value} {m : Machine} (hm : c.holds m) {target : Value} {built : Store}
    (hmakes : b.snapshot.MakesAnew m.store target built) {promise : Rule → Promise}
    (hcomputes : ∀ r ∈ b.rules, c.Yields (promise r).Kept (r.evaluate source)) {own : Set ℕ}
    {m' : Machine} {p : Proc}
    (hrun : c.Run (Set.Ico m.store.records.size built.records.size) { m with store := built }
      (b.snapshot.gathering source target) own m' p) :
    (∀ o, p = .settled o → (b.snapshot.plan promise m.store target built).Ending m' o) ∧
      ((∀ q ∈ p.parts, ∃ o, q = .settled o) →
        (∃ o, p = .settled o) ∨ ∃ m'' o, Machine.Move m' p m'' (.settled o)) := by
  have hplan := hb.isSound hmakes promise (c.base_le hm)
  have hholds : c.holds { m with store := built } :=
    c.stable hm (hmakes.old.mono (c.base_le hm))
  choose! good hgood hstart using hcomputes
  have hdisc : c.Discipline (b.snapshot.plan promise m.store target built).Ending
      (Plan.Gathering c _ good b.snapshot) := Plan.discipline_gathering hplan hgood rfl
  have hbegun : Plan.Gathering c (b.snapshot.plan promise m.store target built) good b.snapshot
      (b.snapshot.gathering source target) _ { m with store := built } :=
    ⟨_, _, Plan.underway_start rfl fun r hr ↦ hstart r hr _ hholds, Or.inl rfl⟩
  obtain ⟨hgathering, hm'⟩ := hdisc.run hbegun hholds hrun
  refine ⟨?_, hgathering.settles⟩
  rintro o rfl
  exact hdisc.ended hgathering hm'

/-- The order does not matter. A mapper of a builder that accepted registrations lead to makes its
target and starts its rules. However they are then resumed and whatever else goes on meanwhile: if
the mapper ends, then as its plan says, in the failure of the earliest registered rule that fails or
else in the result; and once all rules have ended, it ends with its next move. -/
theorem ending_in_every_order {c : Surroundings} {b : Builder} (hb : b.Registered)
    {mapper : Mapper} (hmapper : b.build = .ok mapper) {source : Value} (hsource : source ≠ .null)
    {m : Machine} (hm : c.holds m) {target : Value} {built : Store}
    (hmakes : mapper.MakesAnew m.store target built) {promise : Rule → Promise}
    (hcomputes : ∀ r ∈ mapper.rules, c.Yields (promise r).Kept (r.evaluate source)) :
    m.run (mapper.transform source) =
        ({ m with store := built }, mapper.gathering source target) ∧
      ∀ own m' p, c.Run (Set.Ico m.store.records.size built.records.size) { m with store := built }
          (mapper.gathering source target) own m' p →
        (∀ o, p = .settled o → (mapper.plan promise m.store target built).Ending m' o) ∧
        ((∀ q ∈ p.parts, ∃ o, q = .settled o) →
          (∃ o, p = .settled o) ∨ ∃ m'' o, Machine.Move m' p m'' (.settled o)) := by
  obtain ⟨rfl, hrules⟩ := build_eq_ok hmapper
  exact ⟨b.snapshot.run_transform hrules hsource hmakes.made,
    fun own m' p hrun ↦ hb.consistent.ending_of_run hm hmakes hcomputes hrun⟩

end Builder

namespace Sample

def contactType : TypeDecl :=
  ⟨"Contact", [("phone", .null), ("mail", .null)], .open, [], false, none⟩

def personType : TypeDecl :=
  ⟨"Person", [("name", .null), ("contact", .blank "Contact")], .open, [], false, none⟩

/-- A machine that knows the types of the targets. -/
def machine : Machine :=
  { Machine.empty with store := { Store.empty with types := [contactType, personType] } }

/-- The store after a person was made. -/
def built : Store :=
  { machine.store with
    records := #[⟨"Contact", [("phone", .null), ("mail", .null)]⟩,
      ⟨"Person", [("name", .null), ("contact", .record 0 "Contact")]⟩] }

/-- Nothing is relied on. -/
def anywhere : Surroundings := ⟨0, fun _ ↦ True, fun _ ↦ Nat.zero_le _, fun _ _ ↦ trivial⟩

/-- A source of calls. -/
def reader : Record := ⟨"Contact", [("phone", .text "1"), ("mail", .null)]⟩

/-- A machine with this source. -/
def readMachine : Machine :=
  { machine with store := { machine.store with records := #[reader] } }

/-- The types are known, and the source is as it is. -/
def held : Surroundings where
  base := 1
  holds m := m.store.types = [contactType, personType] ∧ m.store.records[0]? = some reader
  base_le hm := (Array.getElem?_eq_some_iff.mp hm.2).1
  stable hm h := ⟨h.types.trans hm.1, (h.records 0 Nat.zero_lt_one).trans hm.2⟩

/-- The phone of the source. -/
def phoneOf : Compute := .plain fun source ↦ Prog.ofAction (Action.readAttribute source "phone")

/-- It is read where the source is as it is. -/
theorem execWith_phoneOf (enter : Prog → Machine → Machine × Proc) {m : Machine}
    (hm : held.holds m) :
    Machine.execWith enter (phoneOf.invoke (.record 0 "Contact")) m =
      (m, .settled (.ok (.text "1"))) := by
  have hphone : m.store.field? 0 "phone" = some (.text "1") := by
    rw [Store.field?, hm.2]
    rfl
  simp only [phoneOf, Compute.invoke, Prog.ofAction, Machine.execWith, Machine.act,
    Action.readAttribute, hphone]

def late : Compute :=
  .asynchronous fun _ ↦ .sleep 50 fun _ ↦ Prog.fail (.general "KeyError" [.text "late"])

def early : Compute := .plain fun _ ↦ Prog.fail (.general "ValueError" [.text "early"])

def slow : Compute := .asynchronous fun _ ↦ .sleep 100 fun _ ↦ Prog.give (.text "last")

def builder : Builder :=
  ⟨0, "Customer", "Person",
    [⟨.field, ⟨⟨["name"]⟩, ⟨0, 0⟩⟩, late⟩, ⟨.field, ⟨⟨["contact", "phone"]⟩, ⟨0, 1⟩⟩, early⟩,
      ⟨.field, ⟨⟨["contact", "mail"]⟩, ⟨0, 2⟩⟩, slow⟩],
    [("target.name", ⟨["name"]⟩), ("target.contact.phone", ⟨["contact", "phone"]⟩),
      ("target.contact.mail", ⟨["contact", "mail"]⟩)]⟩

theorem registered_builder : builder.Registered := by
  have hall : (Builder.empty 0 "Customer" "Person").registerAll
      [(.field, .text "name", late), (.field, .text " target.contact.phone", early),
        (.field, .slot ⟨["contact", "mail"]⟩, slow)] = .ok builder := rfl
  exact (Builder.Registered.empty 0 "Customer" "Person").registerAll (by decide) hall

theorem makesAnew_person : builder.snapshot.MakesAnew machine.store (.record 1 "Person") built where
  made := rfl
  old := ⟨rfl, rfl, rfl, rfl, rfl, rfl, rfl, rfl, by decide, nofun⟩
  ordinary := rfl
  unaliased := Store.unaliased_of_passes (by decide)

/-- What the computes of the sample promise. -/
def promise (r : Rule) : Promise :=
  if r.slot.path = ["name"] then .fault fun e ↦ e.fault = .general "KeyError" [.text "late"]
  else if r.slot.path = ["contact", "phone"] then
    .fault fun e ↦ e.fault = .general "ValueError" [.text "early"]
  else .value fun _ v ↦ v = .text "last"

theorem computes_yield (source : Value) :
    ∀ r ∈ builder.rules, anywhere.Yields (promise r).Kept (r.evaluate source) := by
  intro r hr
  rcases List.mem_cons.mp hr with rfl | hr
  · exact .asCoroutine (.sleep (Surroundings.EndsIn.yields (Surroundings.endsIn_fail
      fun m id _ ↦ ⟨rfl, not_stopsIteration_general _ _ _ (by decide)⟩))) fun m e h ↦ h.2
  rcases List.mem_cons.mp hr with rfl | hr
  · exact (Surroundings.EndsIn.andThen_await (Surroundings.endsIn_fail
      fun m id _ ↦ ⟨rfl, not_stopsIteration_general _ _ _ (by decide)⟩) fun m v h ↦ h.elim).yields
  · rw [List.mem_singleton.mp hr]
    exact .asCoroutine (.sleep (Surroundings.EndsIn.yields (Surroundings.endsIn_give
      fun m _ ↦ rfl))) fun m e h ↦ h.elim

/-- One round starts all rules, and after the longest sleep another ends them. -/
theorem exists_run (source : Value) :
    ∃ own m' o, anywhere.Run (Set.Ico 0 2) { machine with store := built }
      (builder.snapshot.gathering source (.record 1 "Person")) own m' (.settled o) := by
  have hstart : anywhere.Run (Set.Ico 0 2) { machine with store := built }
      (builder.snapshot.gathering source (.record 1 "Person")) _ _ _ := .refl
  obtain ⟨own, hfirst⟩ := hstart.moves (Machine.advance_moves _ _)
  generalize hround : Machine.advance (builder.snapshot.gathering source (.record 1 "Person"))
    { machine with store := built } = t at hfirst
  have hspares : t.1.Spares own { t.1 with store := { t.1.store with now := 100 } } :=
    ⟨rfl, le_rfl, fun _ _ _ ↦ rfl⟩
  obtain ⟨own', hsecond⟩ := (hfirst.other trivial hspares).moves (Machine.advance_moves _ _)
  subst hround
  exact ⟨own', _, _, hsecond⟩

/-- The rule that was registered first fails last, and its failure is the one that is raised. -/
theorem late_failure_wins :
    builder.Registered ∧ builder.build = .ok builder.snapshot ∧
      machine.run (builder.snapshot.transform (.int 1)) = ({ machine with store := built },
        builder.snapshot.gathering (.int 1) (.record 1 "Person")) ∧
      (∃ own m' o, anywhere.Run (Set.Ico 0 2) { machine with store := built }
        (builder.snapshot.gathering (.int 1) (.record 1 "Person")) own m' (.settled o)) ∧
      ∀ own m' o, anywhere.Run (Set.Ico 0 2) { machine with store := built }
          (builder.snapshot.gathering (.int 1) (.record 1 "Person")) own m' (.settled o) →
        ∃ e, o = .error e ∧ e.fault = .general "KeyError" [.text "late"] := by
  obtain ⟨hstart, hrun⟩ := @Builder.ending_in_every_order anywhere builder registered_builder
    builder.snapshot rfl (.int 1) nofun machine trivial (.record 1 "Person") built makesAnew_person
    promise (computes_yield (.int 1))
  refine ⟨registered_builder, rfl, hstart, exists_run (.int 1), ?_⟩
  intro own m' o hrunEnded
  have hending := (hrun own m' (.settled o) hrunEnded).1 o rfl
  cases hending with
  | failed h he =>
    cases h
    exact ⟨_, rfl, he.1⟩
  | filled h => cases h
  | whole h => cases h
  | object h => cases h

end Sample
end Recast
