import Recast.Proofs.Composition
import Recast.Proofs.Traffic

/-!
What programs may rely on. Computes read objects, so what they do depends on facts about these
(`Footing`). Mappers make objects and fill them; facts are relied on in earnest only if that takes
none of them away (`Footing.Carries`). It does not when targets are made anew, with the objects in
them that slots pass through (`Surroundings.bears_nested`).
-/

set_option autoImplicit false

namespace Recast

/-! ### What is relied on -/

/-- The machines differ at most in how far processes and awaitables have come and in what is noted
of the run. The objects are the same, and so are all types, bindings and bodies. -/
def Machine.SameObjects (m m' : Machine) : Prop :=
  m' = { m with
    tasks := m'.tasks
    store := { m.store with
      nextId := m'.store.nextId
      compiled := m'.store.compiled
      shared := m'.store.shared
      coroutines := m'.store.coroutines
      futures := m'.store.futures
      customs := m'.store.customs
      trace := m'.store.trace
      log := m'.store.log } }

theorem Machine.SameObjects.spares {m m' : Machine} (h : m.SameObjects m') (kept : Set ℕ) :
    m.Spares kept m' := by
  rw [h]
  exact ⟨rfl, le_rfl, fun _ _ _ ↦ rfl⟩

/-- What may be relied on wherever programs are run: facts about the objects of a machine. -/
structure Footing where
  holds : Machine → Prop
  steady : ∀ {m m' : Machine}, holds m → m.SameObjects m' → holds m'

/-- What is relied on is about the objects of a machine, whatever is under way. -/
def Surroundings.IsSteady (c : Surroundings) : Prop :=
  ∀ {m m' : Machine}, c.holds m → m.SameObjects m' → c.holds m'

/-- What may be relied on in such surroundings. -/
def Surroundings.footing (c : Surroundings) (h : c.IsSteady) : Footing := ⟨c.holds, h⟩

/-! ### Completing a rule -/

/-- Completing a rule takes no waiting and changes records at most. -/
theorem Rule.sameBelow_complete (r : Rule) (target : Value) (kind : Mapper.Kind) (o : Outcome)
    {m m' : Machine} {q : Proc} (h : m.run (r.complete target kind o) = (m', q)) :
    ∃ s, m' = { m with store := s } ∧ m.store.SameBelow 0 s := by
  have hwrite : ∀ v, m.store.SameBelow 0 (r.binder.write target v m.store).2 := fun v ↦
    (r.binder.sameBelow_compiled 0 m.store).trans
      (r.slot.addsFrom_write target v _ (Nat.zero_le _))
  cases kind with
  | synchronous =>
    cases o with
    | error e =>
      cases h
      exact ⟨m.store, rfl, .refl 0 m.store⟩
    | ok v =>
      cases h
      exact ⟨_, rfl, hwrite v⟩
  | asynchronous =>
    cases o with
    | error e =>
      obtain ⟨id, _, hrun, _⟩ := m.run_guarded (.error e)
      cases hrun.symm.trans h
      exact ⟨_, rfl, rfl, rfl, rfl, rfl, rfl, rfl, rfl, rfl, le_rfl, fun _ _ ↦ rfl⟩
    | ok v =>
      obtain ⟨id, _, hrun, _⟩ :=
        (m.act (r.binder.write target v)).2.run_guarded (m.act (r.binder.write target v)).1
      cases hrun.symm.trans h
      exact ⟨_, rfl, (hwrite v).trans
        ⟨rfl, rfl, rfl, rfl, rfl, rfl, rfl, rfl, le_rfl, fun _ _ ↦ rfl⟩⟩

/-- Besides, it writes once or not at all. -/
theorem Rule.complete_cases (r : Rule) (target : Value) (kind : Mapper.Kind) (o : Outcome)
    {m m' : Machine} {q : Proc} (h : m.run (r.complete target kind o) = (m', q)) :
    m.SameObjects m' ∨
      ∃ v, { m with store := (r.binder.write target v m.store).2 }.SameObjects m' := by
  cases kind with
  | synchronous =>
    cases o with
    | error e =>
      cases h
      exact Or.inl rfl
    | ok v =>
      cases h
      exact Or.inr ⟨v, rfl⟩
  | asynchronous =>
    cases o with
    | error e =>
      obtain ⟨id, _, hrun, _⟩ := m.run_guarded (.error e)
      cases hrun.symm.trans h
      exact Or.inl rfl
    | ok v =>
      obtain ⟨id, _, hrun, _⟩ :=
        (m.act (r.binder.write target v)).2.run_guarded (m.act (r.binder.write target v)).1
      cases hrun.symm.trans h
      exact Or.inr ⟨v, rfl⟩

/-! ### What mappers do to objects -/

namespace Footing

variable {f : Footing} {type : String} {slot : Slot}

/-- Making an object of a type takes nothing away that is relied on. -/
def Makes (f : Footing) (type : String) : Prop :=
  ∀ m, f.holds m → f.holds { m with store := (Action.construct type m.store).2 }

/-- The object was made as one of the type where the facts held. -/
def HasMade (f : Footing) (type : String) (target : Value) : Prop :=
  ∃ m built, f.holds m ∧ Action.construct type m.store = (.ok target, built)

/-- Whatever is written at the slot of an object that was made as one of the type takes nothing away
that is relied on. -/
def Bears (f : Footing) (type : String) (slot : Slot) : Prop :=
  ∀ target, f.HasMade type target → ∀ m v, f.holds m →
    f.holds { m with store := (slot.write target v m.store).2 }

/-- Neither making targets of the mapper nor filling them takes anything away. -/
def Carries (f : Footing) (mapper : Mapper) : Prop :=
  f.Makes mapper.target ∧ ∀ r ∈ mapper.rules, f.Bears mapper.target r.slot

theorem Bears.complete {r : Rule} {target : Value} (h : f.Bears type r.slot)
    (htarget : f.HasMade type target) {m m' : Machine} (hf : f.holds m) {kind : Mapper.Kind}
    {o : Outcome} {q : Proc} (hrun : m.run (r.complete target kind o) = (m', q)) :
    f.holds m' := by
  rcases r.complete_cases target kind o hrun with hsame | ⟨v, hsame⟩
  · exact f.steady hf hsame
  · refine f.steady ?_ hsame
    have hcompiled : m.SameObjects { m with store := r.binder.compiled m.store } := by
      simp only [Binder.compiled, Binder.compile, Action.change]
      split_ifs <;> rfl
    exact h target htarget { m with store := r.binder.compiled m.store } v
      (f.steady hf hcompiled)

end Footing

/-- The parts of a moment are numbers. -/
theorem Value.exists_of_momentPart? {t : Moment} {name : String} {v : Value}
    (h : Value.momentPart? t name = some v) : ∃ n, v = .int n := by
  unfold momentPart? at h
  split at h
  all_goals first | exact ⟨_, (Option.some.inj h).symm⟩ | cases h

/-! ### Records beyond those that are relied on -/

namespace Surroundings

variable {c : Surroundings} {steady : c.IsSteady} {type : String} {slot : Slot}

/-- The value is none of the records that are relied on, nor does it hold any by itself. -/
def IsBeyond (c : Surroundings) (v : Value) : Prop :=
  (∀ id fault, v ≠ .fault id fault) ∧ ∀ ref type, v = .record ref type → c.base ≤ ref

/-- From the records beyond those that are relied on, some attributes lead to no other ones. -/
def LinksBeyond (c : Surroundings) (links : Set String) (s : Store) : Prop :=
  ∀ ref name v, c.base ≤ ref → name ∈ links → s.field? ref name = some v → c.IsBeyond v

/-- What may be relied on besides, when attributes of attributes are set. -/
def nested (c : Surroundings) (steady : c.IsSteady) (links : Set String) : Footing where
  holds m := c.holds m ∧ c.LinksBeyond links m.store
  steady hm h := ⟨steady hm.1 h, by rw [h]; exact hm.2⟩

variable {links : Set String} {s : Store}

theorem isBeyond_null : c.IsBeyond .null := by
  constructor
  · rintro id fault ⟨⟩
  · rintro ref type ⟨⟩

theorem isBeyond_int (n : ℤ) : c.IsBeyond (.int n) := by
  constructor
  · rintro id fault ⟨⟩
  · rintro ref type ⟨⟩

theorem LinksBeyond.of_records_eq {s' : Store} (h : c.LinksBeyond links s)
    (hrecords : s'.records = s.records) : c.LinksBeyond links s' := by
  intro ref name v href hname hv
  rw [Store.field?, hrecords] at hv
  exact h ref name v href hname hv

/-- One such attribute stays beyond. -/
theorem LinksBeyond.attribute (h : c.LinksBeyond links s) {name : String} (hname : name ∈ links)
    {v w : Value} (hv : c.IsBeyond v) (hattribute : s.attribute? v name = some w) :
    c.IsBeyond w := by
  cases v with
  | record ref type =>
    cases hfield : s.field? ref name with
    | some u =>
      simp only [Store.attribute?, Action.readAttribute, hfield] at hattribute
      cases hattribute
      exact h ref name _ (hv.2 ref type rfl) hname hfield
    | none =>
      simp only [Store.attribute?, Action.readAttribute, hfield] at hattribute
      split at hattribute
      · split_ifs at hattribute
        · cases hattribute
          exact isBeyond_null
        · cases hattribute
      · cases hattribute
  | moment t =>
    simp only [Store.attribute?, Action.readAttribute] at hattribute
    cases hpart : Value.momentPart? t name with
    | none =>
      rw [hpart] at hattribute
      cases hattribute
    | some u =>
      rw [hpart] at hattribute
      cases hattribute
      obtain ⟨n, rfl⟩ := Value.exists_of_momentPart? hpart
      exact isBeyond_int n
  | fault id fault => exact absurd rfl (hv.1 id fault)
  | _ => cases hattribute

/-- So paths of these attributes stay beyond. -/
theorem LinksBeyond.walk (h : c.LinksBeyond links s) {path : List String}
    (hpath : ∀ name ∈ path, name ∈ links) {v w : Value} (hv : c.IsBeyond v)
    (hwalk : s.walk v path = some w) : c.IsBeyond w := by
  induction path generalizing v with
  | nil => exact Option.some.inj hwalk ▸ hv
  | cons name rest ih =>
    obtain ⟨hname, hrest⟩ := List.forall_mem_cons.mp hpath
    rw [Store.walk] at hwalk
    cases hattribute : s.attribute? v name with
    | none =>
      rw [hattribute] at hwalk
      cases hwalk
    | some u =>
      rw [hattribute] at hwalk
      exact ih hrest (h.attribute hname hv hattribute) hwalk

/-- An attribute of an attribute of an object that was made there may be set, as long as no path to
another one is changed by it. -/
theorem bears_nested (hslot : slot.IsValid) {parents : List String} {last : String}
    (hpath : slot.path = parents ++ [last]) (hparents : ∀ name ∈ parents, name ∈ links)
    (hlast : last ∉ links) : (c.nested steady links).Bears type slot := by
  rintro target ⟨m₀, built, hm₀, hmade⟩ m v ⟨hm, hlinks⟩
  rw [Slot.write_eq hslot]
  cases hlanding : m.store.landing target slot with
  | error r => exact ⟨c.stable hm (Store.sameBelow_count c.base m.store), hlinks.of_records_eq rfl⟩
  | ok spot =>
    cases spot with
    | none => exact ⟨hm, hlinks⟩
    | some p =>
      obtain ⟨before, hbefore, hwalk⟩ := Store.exists_of_landing hlanding
      obtain ⟨rfl, hname⟩ := List.append_inj' (hpath.symm.trans hbefore) rfl
      obtain rfl : last = p.name := List.singleton_injective hname
      have htarget : c.IsBeyond target :=
        ⟨fun id fault heq ↦ absurd (heq ▸ Action.isOrdinary_of_construct hmade).2 nofun,
          fun ref type heq ↦ (Action.makesFrom_constructAt (Store.growth_sameBelow c.base) _ _).2
            m₀.store ref type (c.base_le hm₀.1) (heq ▸ congrArg Prod.fst hmade)⟩
      have hbase : c.base ≤ p.ref := (hlinks.walk hparents htarget hwalk).2 _ _ rfl
      refine ⟨c.stable hm (Store.sameBelow_put hbase m.store v), ?_⟩
      intro ref name w href hname hw
      have hne : (ref, name) ≠ (p.ref, p.name) := by
        rintro ⟨⟩
        exact hlast hname
      rw [Store.field?_put_of_ne _ _ _ hne] at hw
      exact hlinks ref name w href hname hw

end Surroundings

namespace Sample

theorem held_isSteady : held.IsSteady := by
  intro m m' hm hsame
  rw [hsame]
  exact hm

/-- The types and the source are as they are, and contacts of persons are other objects. -/
abbrev ground : Footing := held.nested held_isSteady {"contact"}

theorem ground_makes_person : ground.Makes "Person" := by
  rintro m ⟨hm, hlinks⟩
  rw [construct_person hm.1]
  have hsize : 1 ≤ m.store.records.size := held.base_le hm
  refine ⟨held.stable hm ((sameBelow_grown hsize _).trans
    (sameBelow_grown (by rw [size_grown]; omega) _)), ?_⟩
  rintro ref name v href rfl hv
  obtain hold | rfl | rfl | hlarge : ref < m.store.records.size ∨ ref = m.store.records.size ∨
      ref = m.store.records.size + 1 ∨ m.store.records.size + 1 < ref := by omega
  · refine hlinks ref "contact" v href rfl ?_
    rwa [Store.field?, records_grown_of_lt _ _ (by rw [size_grown]; omega),
      records_grown_of_lt _ _ hold] at hv
  · rw [Store.field?, records_grown_of_lt _ _ (by rw [size_grown]; omega),
      records_grown_self] at hv
    cases hv
  · rw [← size_grown m.store contact, Store.field?, records_grown_self] at hv
    cases hv
    constructor
    · rintro id fault ⟨⟩
    · rintro ref type ⟨⟩
      exact hsize
  · rw [Store.field?, Array.getElem?_eq_none (by simp only [size_grown]; omega)] at hv
    cases hv

/-- Where only contacts are passed through, other attributes may be set. -/
theorem bears_attribute {d : Slot.Descriptor} {parents : List String} {last : String}
    (hparse : Slot.parseAs .field d = .ok ⟨parents ++ [last]⟩)
    (hvalid : Slot.IsValid ⟨parents ++ [last]⟩) (hparents : ∀ name ∈ parents, name = "contact")
    (hlast : last ≠ "contact") (s : Slot) (hs : Slot.parseAs .field d = .ok s) :
    ground.Bears "Person" s := by
  cases hparse.symm.trans hs
  exact Surroundings.bears_nested hvalid rfl hparents hlast

end Sample

end Recast
