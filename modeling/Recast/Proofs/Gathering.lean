import Recast.Proofs.Filling
import Mathlib.Data.List.Forall2

/-!
What a mapper makes of the outcomes of its rules. When the rules of a sound plan have all ended, the
earliest failure among their outcomes is that of the earliest rule that fails by the plan
(`Plan.firstFailure?_zip`), so the mapper ends as the plan says (`Plan.Underway.ending`). A mapper
that runs its rules side by side keeps to this in every order of moves
(`Plan.discipline_gathering`).
-/

set_option autoImplicit false

namespace Recast

/-! ### Outcomes -/

theorem Proc.outcomes?_eq_some_iff {parts : List Proc} {os : List Outcome} :
    Proc.outcomes? parts = some os ↔ parts = os.map .settled := by
  induction parts generalizing os with
  | nil =>
    cases os with
    | nil => simp [Proc.outcomes?]
    | cons o rest => simp [Proc.outcomes?]
  | cons p parts ih =>
    cases hp : p.outcome? with
    | none =>
      have hopen : ∀ o, p ≠ .settled o := by
        rintro o rfl
        cases hp
      simp only [Proc.outcomes?, hp]
      cases os with
      | nil => simp
      | cons o rest => simp [hopen o]
    | some o =>
      obtain rfl : p = .settled o := by
        cases p with
        | settled o' => exact congrArg Proc.settled (Option.some.inj hp)
        | _ => cases hp
      cases os with
      | nil => cases hrest : Proc.outcomes? parts <;> simp [Proc.outcomes?, Proc.outcome?, hrest]
      | cons o' rest =>
        rw [List.map_cons, List.cons.injEq, ← ih]
        cases hrest : Proc.outcomes? parts <;> simp [Proc.outcomes?, Proc.outcome?, hrest]

namespace Mapper

/-- What a mapper ends in when its rules have ended. -/
def concluded (mapper : Mapper) (target : Value) (outcomes : List Outcome) : Outcome :=
  match firstFailure? (mapper.rules.zip outcomes) with
  | some (_, e) => .error e
  | none => .ok (mapper.result target (outcomes.filterMap value?))

/-- Only the log is written when a mapper concludes, and only for a failure. -/
theorem run_conclude (mapper : Mapper) (target : Value) (outcomes : List Outcome) (m : Machine) :
    ∃ log, m.run (mapper.conclude target outcomes) =
        ({ m with store := { m.store with log := log } },
          .settled (mapper.concluded target outcomes)) ∧
      (firstFailure? (mapper.rules.zip outcomes) = none → log = m.store.log) := by
  rw [conclude, concluded]
  cases firstFailure? (mapper.rules.zip outcomes) with
  | none => exact ⟨m.store.log, rfl, fun _ ↦ rfl⟩
  | some failed => exact ⟨_, rfl, nofun⟩

/-- What follows when all rules have ended. -/
def whenAll (mapper : Mapper) (target : Value) : Option (List Outcome) → Prog
  | none => Prog.raise .cancelled
  | some outcomes => mapper.conclude target outcomes

theorem fill_eq (mapper : Mapper) (source target : Value) :
    mapper.fill source target =
      .gather (mapper.rules.map fun r ↦ r.apply source target) (mapper.whenAll target) :=
  congrArg (Prog.gather _) (funext fun outcomes ↦ by cases outcomes <;> rfl)

end Mapper

namespace Plan

section

variable {c : Surroundings} {plan : Plan} {good : Rule → Proc → Set ℕ → Machine → Prop}

/-- What a rule ended in: a failure of the plan, or its value where it belongs. -/
inductive Ended (plan : Plan) (m : Machine) (r : Rule) : Outcome → Prop
  | failed {is : Raised → Prop} {e : Raised} (h : plan.failureOf? r = some is) (he : is e) :
    Ended plan m r (.error e)
  | whole {v : Value} (h : plan.failureOf? r = none) (hvalue : (plan.promise r).Kept m (.ok v))
      (hland : plan.built.landing plan.target r.slot = .ok none) : Ended plan m r (.ok v)
  | written {v : Value} {p : Spot} (h : plan.failureOf? r = none)
      (hvalue : (plan.promise r).Kept m (.ok v))
      (hland : plan.built.landing plan.target r.slot = .ok (some p))
      (hfield : m.store.field? p.ref p.name = some v) : Ended plan m r (.ok plan.target)

theorem failureOf?_eq_none {m : Machine} {r : Rule} {v : Value}
    (hvalue : (plan.promise r).Kept m (.ok v)) {place : Option Spot}
    (hland : plan.built.landing plan.target r.slot = .ok place) : plan.failureOf? r = none := by
  unfold failureOf?
  cases hpromise : plan.promise r with
  | fault is =>
    rw [hpromise] at hvalue
    exact hvalue.elim
  | value is => simp only [hland]

theorem Stage.ended {r : Rule} (hgood : c.Discipline (plan.promise r).Kept (good r)) {own : Set ℕ}
    {m : Machine} {o : Outcome} (h : Stage plan good r own m (.settled o)) (hm : c.holds m) :
    plan.Ended m r o := by
  generalize hp : Proc.settled o = p at h
  cases h with
  | computing => exact absurd hp.symm (Proc.bind_ne_settled _ _ o)
  | failed h he =>
    cases hp
    exact .failed h he
  | whole h hland =>
    cases hp
    have hvalue := hgood.ended h hm
    exact .whole (failureOf?_eq_none hvalue hland) hvalue hland
  | written h hland hfield =>
    cases hp
    have hvalue := hgood.ended h hm
    exact .written (failureOf?_eq_none hvalue hland) hvalue hland hfield

/-- The earliest failure among the outcomes of field rules is that of the earliest rule that fails
by the plan; when none does, every rule has written its value. -/
theorem firstFailure?_zip {m : Machine} (hordinary : Mapper.failure? (.ok plan.target) = none)
    {rules : List Rule} (hfield : ∀ r ∈ rules, r.slot.path ≠ []) {os : List Outcome}
    (h : List.Forall₂ (plan.Ended m) rules os) :
    (∃ r e is, Mapper.firstFailure? (rules.zip os) = some (r, e) ∧
        rules.findSome? plan.failureOf? = some is ∧ is e) ∨
      Mapper.firstFailure? (rules.zip os) = none ∧ rules.findSome? plan.failureOf? = none ∧
        ∀ r ∈ rules, ∃ p v, (plan.promise r).Kept m (.ok v) ∧
          plan.built.landing plan.target r.slot = .ok (some p) ∧
          m.store.field? p.ref p.name = some v := by
  induction h with
  | nil => exact Or.inr ⟨rfl, rfl, nofun⟩
  | @cons r o rules os hr _ ih =>
    rw [List.zip_cons_cons, Mapper.firstFailure?, List.findSome?_cons]
    cases hr with
    | failed hfails he =>
      rw [hfails]
      exact Or.inl ⟨_, _, _, rfl, rfl, he⟩
    | whole hnone _ hland =>
      exact absurd (Store.path_eq_nil_of_landing hland) (hfield r List.mem_cons_self)
    | written hnone hvalue hland hwritten =>
      rw [hnone, hordinary]
      rcases ih fun s hs ↦ hfield s (List.mem_cons_of_mem r hs) with hfailed | ⟨hfirst, hall, hrest⟩
      · exact Or.inl hfailed
      · exact Or.inr ⟨hfirst, hall,
          List.forall_mem_cons.mpr ⟨⟨_, _, hvalue, hland, hwritten⟩, hrest⟩⟩

namespace Underway

variable {own : Set ℕ} {owns : ℕ → Set ℕ} {m : Machine} {parts : List Proc}

/-- When all have ended, each rule has ended as the plan says. -/
theorem ended (h : Underway c plan good own owns m parts)
    (hgood : ∀ r ∈ plan.rules, c.Discipline (plan.promise r).Kept (good r)) (hm : c.holds m)
    {os : List Outcome} (hos : Proc.outcomes? parts = some os) :
    List.Forall₂ (plan.Ended m) plan.rules os := by
  have hparts := Proc.outcomes?_eq_some_iff.mp hos
  have hlength : os.length = plan.rules.length := by
    rw [← h.length_eq, hparts, List.length_map]
  refine List.forall₂_iff_get.mpr ⟨hlength.symm, ?_⟩
  intro i hi ho
  have hpart : parts[i]? = some (.settled os[i]) := by
    rw [hparts, List.getElem?_map, List.getElem?_eq_getElem ho]
    rfl
  have hstage := h.stage i plan.rules[i] _ (List.getElem?_eq_getElem hi) hpart
  exact hstage.ended (hgood _ (List.getElem_mem hi)) hm

end Underway

namespace Layout

variable {own : Set ℕ} {owns : ℕ → Set ℕ} {m : Machine}

/-- A value that was written is found where the path of the slot leads. -/
theorem walk_eq (h : Layout c plan own owns m) (hplan : plan.IsSound c.base) {r : Rule}
    (hr : r ∈ plan.rules) {p : Spot} {v : Value}
    (hland : plan.built.landing plan.target r.slot = .ok (some p))
    (hfield : m.store.field? p.ref p.name = some v) :
    m.store.walk plan.target r.slot.path = some v := by
  rw [← h.landing_eq hplan hr] at hland
  obtain ⟨parents, hpath, hwalk⟩ := Store.exists_of_landing hland
  rw [hpath, Store.walk_append, hwalk]
  simp [Store.walk, Store.attribute?, Action.readAttribute, hfield, Except.toOption]

/-- When all rules have ended as the plan says, so does the mapper. -/
theorem ending (h : Layout c plan own owns m) (hplan : plan.IsSound c.base) {mapper : Mapper}
    (hmapper : mapper.rules = plan.rules) {os : List Outcome}
    (hended : List.Forall₂ (plan.Ended m) plan.rules os) :
    plan.Ending m (mapper.concluded plan.target os) := by
  rw [Mapper.concluded, hmapper]
  rcases hplan.kind with hfield | ⟨r, hrules, hkind, hpath⟩
  · rcases firstFailure?_zip hplan.ordinary (fun r hr ↦ (hfield r hr).2) hended with
      ⟨r, e, is, hfirst, hfails, he⟩ | ⟨hfirst, hnone, hwritten⟩
    · rw [hfirst]
      exact .failed hfails he
    · have hkinds : ∀ r ∈ mapper.rules, r.kind = .field :=
        fun r hr ↦ (hfield r (hmapper ▸ hr)).1
      simp only [hfirst, Mapper.result_of_field hkinds]
      refine .filled hnone (fun r hr ↦ (hfield r hr).1) (fun r hr ↦ ?_) h.fields
      obtain ⟨p, v, hvalue, hland, hput⟩ := hwritten r hr
      exact ⟨v, hvalue, h.walk_eq hplan hr hland hput⟩
  · have hfailure : plan.failure? = plan.failureOf? r := by
      rw [failure?, hrules]
      cases hr : plan.failureOf? r <;> simp [hr]
    rw [hrules] at hended ⊢
    cases hended with
    | cons hr hrest =>
      cases hrest
      cases hr with
      | failed hfails he => exact .failed (hfailure.trans hfails) he
      | written _ _ hland _ =>
        rw [Store.landing_of_path_eq_nil _ _ hpath] at hland
        cases hland
      | @whole v hnone hvalue _ =>
        cases hv : Mapper.failure? (.ok v) with
        | some e =>
          simp only [List.zip_cons_cons, Mapper.firstFailure?, hv]
          exact .object (hfailure.trans hnone) hrules hkind hvalue hv
        | none =>
          have hwhole : mapper.isWhole = true := by
            simp [Mapper.isWhole, hmapper, hrules, hkind]
          have hresult : mapper.result plan.target [v] = v := by simp [Mapper.result, hwhole]
          simp only [List.zip_cons_cons, List.zip_nil_left, Mapper.firstFailure?, hv,
            List.filterMap_cons, List.filterMap_nil, Mapper.value?, hresult]
          exact .whole (hfailure.trans hnone) hrules hkind hvalue hv

end Layout

/-- The mapper ends as the plan says. -/
theorem Underway.ending {own : Set ℕ} {owns : ℕ → Set ℕ} {m : Machine} {parts : List Proc}
    (h : Underway c plan good own owns m parts) (hplan : plan.IsSound c.base)
    (hgood : ∀ r ∈ plan.rules, c.Discipline (plan.promise r).Kept (good r)) (hm : c.holds m)
    {mapper : Mapper} (hmapper : mapper.rules = plan.rules) {os : List Outcome}
    (hos : Proc.outcomes? parts = some os) :
    plan.Ending m (mapper.concluded plan.target os) :=
  h.layout.ending hplan hmapper (h.ended hgood hm hos)

/-! ### The mapper -/

/-- When the target has just been made, all rules are about to compute. -/
theorem underway_begin {m : Machine} (hstore : m.store = plan.built) {compute : Rule → Prog}
    (hgood : ∀ r ∈ plan.rules, good r (.fresh (compute r)) ∅ m) :
    Underway c plan good plan.region (fun _ ↦ ∅) m
      ((plan.rules.map fun r ↦ (compute r).bind (r.finish plan.target)).map .fresh) where
  types_eq := by rw [hstore]
  size_le := by rw [hstore]
  length_eq := by rw [List.length_map, List.length_map]
  stage i r p hr hp := by
    rw [List.getElem?_map, List.getElem?_map, hr] at hp
    cases hp
    exact .computing (hgood r (List.mem_of_getElem? hr))
  apart _ _ _ := Set.disjoint_empty _
  apart_region _ := Set.empty_disjoint _
  owns_subset _ := Set.empty_subset _
  owns_bounds _ := Set.empty_subset _
  region_subset := subset_rfl
  fields _ _ _ _ := by rw [hstore]

theorem underway_start {m : Machine} (hstore : m.store = plan.built) {source : Value}
    (hgood : ∀ r ∈ plan.rules, good r (.fresh (r.evaluate source)) ∅ m) :
    Underway c plan good plan.region (fun _ ↦ ∅) m
      ((plan.rules.map fun r ↦ r.apply source plan.target).map .fresh) := by
  simp only [Rule.apply_eq]
  exact underway_begin hstore hgood

/-- The mapper waits for its rules, or it has ended in what it makes of their outcomes. -/
def Gathering (c : Surroundings) (plan : Plan) (good : Rule → Proc → Set ℕ → Machine → Prop)
    (mapper : Mapper) (p : Proc) (own : Set ℕ) (m : Machine) : Prop :=
  ∃ owns parts, Underway c plan good own owns m parts ∧
    (p = .joining false parts (mapper.whenAll plan.target) ∨
      ∃ os, Proc.outcomes? parts = some os ∧ p = .settled (mapper.concluded plan.target os))

theorem sameBelow_log (base : ℕ) (s : Store) (log : List Log.Entry) :
    s.SameBelow base { s with log := log } :=
  ⟨rfl, rfl, rfl, rfl, rfl, rfl, rfl, rfl, le_rfl, fun _ _ ↦ rfl⟩

/-- A mapper that waits for its rules keeps to its own and ends as the plan says, in every order of
moves. -/
theorem discipline_gathering (hplan : plan.IsSound c.base)
    (hgood : ∀ r ∈ plan.rules, c.Discipline (plan.promise r).Kept (good r)) {mapper : Mapper}
    (hmapper : mapper.rules = plan.rules) :
    c.Discipline plan.Ending (Gathering c plan good mapper) where
  undisturbed := by
    rintro p own m m' ⟨owns, parts, hunder, hp⟩ hm hm' hspares
    exact ⟨owns, parts, hunder.undisturbed hplan hgood hm hm' hspares, hp⟩
  move := by
    rintro p q own m m' ⟨owns, parts, hunder, rfl | ⟨os, _, rfl⟩⟩ hm hmove
    · cases hmove with
      | part hpart =>
        obtain ⟨hholds, hspares, owns', hunder'⟩ := hunder.move hplan hgood hm hpart
        exact ⟨hholds, hspares, owns', _, hunder', Or.inl rfl⟩
      | join hos hrun =>
        obtain ⟨log, hend, _⟩ := mapper.run_conclude plan.target _ m
        cases hend.symm.trans hrun
        have hholds := c.stable hm (sameBelow_log c.base m.store log)
        have hspares : ∀ kept, m.Spares kept { m with store := { m.store with log := log } } :=
          fun kept ↦ ⟨rfl, le_rfl, fun _ _ _ ↦ rfl⟩
        refine ⟨hholds, hspares _, owns, parts, ?_, Or.inr ⟨_, hos, rfl⟩⟩
        rw [Machine.made, Set.Ico_self, Set.union_empty]
        exact hunder.undisturbed hplan hgood hm hholds (hspares _)
    · exact absurd rfl (hmove.ne_settled _)
  ended := by
    rintro o own m ⟨owns, parts, hunder, hp | ⟨os, hos, hp⟩⟩ hm
    · cases hp
    · cases hp
      exact hunder.ending hplan hgood hm hmapper hos

/-- When all rules have ended, the mapper ends with its next move. -/
theorem Gathering.settles {mapper : Mapper} {p : Proc} {own : Set ℕ} {m : Machine}
    (h : Gathering c plan good mapper p own m) (hparts : ∀ q ∈ p.parts, ∃ o, q = .settled o) :
    (∃ o, p = .settled o) ∨ ∃ m' o, Machine.Move m p m' (.settled o) := by
  obtain ⟨owns, parts, _, rfl | ⟨os, _, rfl⟩⟩ := h
  · refine Or.inr ?_
    choose! o ho using hparts
    have hos : Proc.outcomes? parts = some (parts.map o) := by
      rw [Proc.outcomes?_eq_some_iff, List.map_map]
      conv_lhs => rw [← List.map_id parts]
      exact List.map_congr_left ho
    obtain ⟨log, hend, _⟩ := mapper.run_conclude plan.target (parts.map o) m
    exact ⟨_, _, .join hos hend⟩
  · exact Or.inl ⟨_, rfl⟩

end

end Plan

end Recast
