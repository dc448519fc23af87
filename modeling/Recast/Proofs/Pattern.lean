import Recast.Proofs.Appearance
import Recast.Proofs.Filling
import Mathlib.Data.List.Find
import Mathlib.Data.List.Induction

/-!
What is to be expected of a mapper. A pattern shows what the targets of a type are made like. From a
pattern and from what is expected of the compute at each slot it can be told what a mapper gives: a
fault of the earliest write that fails, or a target that looks like the pattern with every value
laid over its slot (`Pattern.expectation`). A mapper is thereby a compute of which something is
expected in turn. Laying one at a slot comes to the same as laying its writes there one by one
(`Pattern.Holds.overlay_flatten`): one fails when the other fails
(`Pattern.Holds.findSome?_flatten_eq_none_iff`), and when a compute decides the failure, it is the
same compute for both (`Pattern.Holds.exists_fault_of_decider?`).
-/

set_option autoImplicit false

namespace Recast

/-- What is seen of a value at the end of each way into it. -/
abbrev Face := List Access → Option Value

/-- What is expected of a compute: a value that looks in a certain way, or a fault. -/
inductive Expectation where
  | value (face : Face)
  | fault (is : Raised → Prop)

namespace Expectation

/-- The outcomes that are as expected. -/
def promise : Expectation → Promise
  | .value face => .value fun m v ↦ m.store.look v = face
  | .fault is => .fault is

theorem kept_value_iff {face : Face} {m : Machine} {o : Outcome} :
    (value face).promise.Kept m o ↔ ∃ v, o = .ok v ∧ m.store.look v = face := by
  cases o with
  | error e => exact ⟨False.elim, nofun⟩
  | ok v => exact ⟨fun h ↦ ⟨v, rfl, h⟩, fun ⟨_, hv, h⟩ ↦ Except.ok.inj hv ▸ h⟩

theorem kept_fault_iff {is : Raised → Prop} {m : Machine} {o : Outcome} :
    (fault is).promise.Kept m o ↔ ∃ e, o = .error e ∧ is e ∧ ¬ e.StopsIteration := by
  cases o with
  | error e => exact ⟨fun h ↦ ⟨e, rfl, h⟩, fun ⟨_, he, h⟩ ↦ Except.error.inj he ▸ h⟩
  | ok v => exact ⟨False.elim, nofun⟩

theorem left_value_iff {face : Face} {m : Machine} {o : Outcome} :
    (value face).promise.Left m o ↔ ∃ v, o = .ok v ∧ m.store.look v = face := by
  cases o with
  | error e => exact ⟨fun h ↦ absurd h Promise.Left.not_value, nofun⟩
  | ok v => exact Promise.left_ok_iff.trans kept_value_iff

theorem exists_of_left_fault {is : Raised → Prop} {m : Machine} {o : Outcome}
    (h : (fault is).promise.Left m o) : ∃ e, o = .error e := by
  cases o with
  | error e => exact ⟨e, rfl⟩
  | ok v => exact (Promise.left_ok_iff.mp h).elim

/-- How the expected value looks; nothing is seen of a fault. -/
def face : Expectation → Face
  | .value face => face
  | .fault _ => fun _ ↦ none

end Expectation

/-- A slot and what is expected of the compute that gives its value. -/
abbrev Write := Slot × Expectation

/-- The write further down a path. -/
def Write.under (slot : Slot) (w : Write) : Write := (slot.extend w.1.path, w.2)

/-! ### Laying values over slots -/

/-- A face with the expected values laid over their slots. -/
def overlay (face : Face) : List Write → Face
  | [], path => face path
  | w :: rest, path =>
    if Access.along w.1.path <+: path then w.2.face (path.drop w.1.path.length)
    else overlay face rest path

section Overlay

variable {face : Face} {writes : List Write} {w : Write} {path : List Access}

theorem Access.drop_along (names : List String) (path : List Access) :
    (along names ++ path).drop names.length = path :=
  List.drop_left' (List.length_map _)

theorem Access.along_prefix_iff {names names' : List String} :
    along names <+: along names' ↔ names <+: names' :=
  List.prefix_map_iff_of_injective fun _ _ ↦ Access.member.inj

/-- A way into the face either leads through a slot that is laid over, or sees what it saw. -/
theorem overlay_cases (face : Face) (writes : List Write) (path : List Access) :
    (∃ w ∈ writes, ∃ more, path = Access.along w.1.path ++ more ∧
        overlay face writes path = w.2.face more) ∨
      (∀ w ∈ writes, ¬ Access.along w.1.path <+: path) ∧ overlay face writes path = face path := by
  induction writes with
  | nil => exact Or.inr ⟨nofun, rfl⟩
  | cons w rest ih =>
    by_cases hw : Access.along w.1.path <+: path
    · obtain ⟨more, rfl⟩ := hw
      refine Or.inl ⟨w, List.mem_cons_self, more, rfl, ?_⟩
      rw [overlay, if_pos (List.prefix_append _ _), Access.drop_along]
    · rw [overlay, if_neg hw]
      rcases ih with ⟨w', hw', hmore⟩ | ⟨hrest, hface⟩
      · exact Or.inl ⟨w', List.mem_cons_of_mem _ hw', hmore⟩
      · exact Or.inr ⟨List.forall_mem_cons.mpr ⟨hw, hrest⟩, hface⟩

theorem overlay_away (h : ∀ w ∈ writes, ¬ Access.along w.1.path <+: path) :
    overlay face writes path = face path := by
  rcases overlay_cases face writes path with ⟨w, hw, more, rfl, _⟩ | ⟨_, hface⟩
  · exact absurd (List.prefix_append _ _) (h w hw)
  · exact hface

/-- What looks like each value at its slot, and elsewhere like the face, looks like the overlay. -/
theorem eq_overlay {seen : Face} (hvalues : ∀ w ∈ writes, ∀ more,
      seen (Access.along w.1.path ++ more) = w.2.face more)
    (hrest : ∀ path, (∀ w ∈ writes, ¬ Access.along w.1.path <+: path) → seen path = face path) :
    seen = overlay face writes := by
  funext path
  rcases overlay_cases face writes path with ⟨w, hw, more, rfl, hmore⟩ | ⟨hnone, hface⟩
  · rw [hmore, hvalues w hw more]
  · rw [hface, hrest path hnone]

theorem overlay_append_congr {face' : Face} {rest rest' : List Write}
    (h : overlay face rest path = overlay face' rest' path) (writes : List Write) :
    overlay face (writes ++ rest) path = overlay face' (writes ++ rest') path := by
  induction writes with
  | nil => exact h
  | cons w writes ih => rw [List.cons_append, List.cons_append, overlay, overlay, ih]

/-- Below a slot, the writes under it are seen as they are seen by themselves. -/
theorem overlay_under {inner : Face} {slot : Slot} {after : List Write} (writes : List Write)
    (h : overlay face after (Access.along slot.path ++ path) = inner path) :
    overlay face (writes.map (Write.under slot) ++ after) (Access.along slot.path ++ path) =
      overlay inner writes path := by
  induction writes with
  | nil => exact h
  | cons w writes ih =>
    rw [List.map_cons, List.cons_append, overlay, overlay, ih]
    show (if Access.along (slot.path ++ w.1.path) <+: _ then
      w.2.face (List.drop (slot.path ++ w.1.path).length _) else _) = _
    simp only [Access.along_append, List.prefix_append_right_inj, List.length_append,
      ← List.drop_drop, Access.drop_along]

/-- Away from a slot, the writes under it are not seen. -/
theorem overlay_not_under {slot : Slot} (h : ¬ Access.along slot.path <+: path)
    (writes after : List Write) :
    overlay face (writes.map (Write.under slot) ++ after) path = overlay face after path := by
  induction writes with
  | nil => rfl
  | cons w writes ih =>
    have hunder : ¬ Access.along (slot.extend w.1.path).path <+: path := by
      intro hbegins
      rw [Slot.extend, Access.along_append] at hbegins
      exact h ((List.prefix_append _ _).trans hbegins)
    rw [List.map_cons, List.cons_append, overlay, ih]
    exact if_neg hunder

/-- Laying over a slot what writes make of the face there is laying the writes under it. -/
theorem overlay_flatten {inner : Face} {slot : Slot} {before after : List Write} {e : Expectation}
    (he : e.face = overlay inner writes)
    (hinner : ∀ path, face (Access.along slot.path ++ path) = inner path)
    (hafter : ∀ w ∈ after, slot.overlaps w.1 = false) :
    overlay face (before ++ (slot, e) :: after) =
      overlay face (before ++ (writes.map (Write.under slot) ++ after)) := by
  funext path
  refine overlay_append_congr ?_ before
  rw [overlay]
  split_ifs with hslot
  · obtain ⟨more, rfl⟩ := hslot
    have hclear : ∀ w ∈ after,
        ¬ Access.along w.1.path <+: Access.along slot.path ++ more := by
      intro w hw hbegins
      have hcomparable := List.prefix_or_prefix_of_prefix (List.prefix_append _ more) hbegins
      rw [Access.along_prefix_iff, Access.along_prefix_iff, ← Slot.overlaps_iff, hafter w hw]
        at hcomparable
      exact Bool.noConfusion hcomparable
    rw [overlay_under writes ((overlay_away hclear).trans (hinner more)), he,
      Access.drop_along]
  · exact (overlay_not_under hslot writes after).symm

end Overlay

/-! ### Targets that are told apart -/

/-- Every record that is seen in a value is among the given ones, and only one way leads to it. -/
structure Store.IsTree (s : Store) (v : Value) (region : Set ℕ) : Prop where
  mem : ∀ path ref type, s.descend v path = some (.record ref type) → ref ∈ region
  unique : ∀ path path' ref type type', s.descend v path = some (.record ref type) →
    s.descend v path' = some (.record ref type') → path = path'

namespace Store.IsTree

variable {s : Store} {v : Value} {region : Set ℕ}

theorem unaliased (h : s.IsTree v region) (slots : List Slot) : s.Unaliased v region slots where
  mem := by
    rintro slot - before ref name ⟨-, type, hwalk⟩
    exact h.mem (Access.along before) ref type ((s.descend_along v before).trans hwalk)
  unique := by
    rintro slot - slot' - before before' ref name name' ⟨-, type, hwalk⟩ ⟨-, type', hwalk'⟩
    exact Access.along_injective (h.unique _ _ ref type type'
      ((s.descend_along v before).trans hwalk) ((s.descend_along v before').trans hwalk'))

end Store.IsTree

/-- Away from the slots of a plan, a filled target is as it was made. -/
theorem Plan.descend_eq {plan : Plan} (htree : plan.built.IsTree plan.target plan.region)
    {s : Store} (htypes : s.types = plan.built.types)
    (hothers : ∀ ref ∈ plan.region, ∀ name, ¬ plan.IsSpot ref name →
      s.field? ref name = plan.built.field? ref name) {path : List Access}
    (hpath : ∀ r ∈ plan.rules, ¬ Access.along r.slot.path <+: path) :
    s.descend plan.target path = plan.built.descend plan.target path := by
  induction path using List.reverseRecOn with
  | nil => rfl
  | append_singleton path a ih =>
    rw [Store.descend_append, Store.descend_append,
      ih fun r hr hbegins ↦ hpath r hr (hbegins.trans (List.prefix_append _ _))]
    cases hw : plan.built.descend plan.target path with
    | none => rfl
    | some w =>
      have hstep : s.access w a = plan.built.access w a := by
        refine Store.access_congr htypes ?_
        intro name ref type ha hrecord
        subst ha hrecord
        refine hothers ref (htree.mem path ref type hw) name ?_
        rintro ⟨r, hr, p, hland, rfl, rfl⟩
        obtain ⟨parents, hslot, hwalk⟩ := Store.exists_of_landing hland
        rw [← Store.descend_along] at hwalk
        refine hpath r hr ?_
        rw [hslot, Access.along_append, htree.unique _ _ _ _ _ hwalk hw]
        exact List.prefix_refl _
      simp only [Option.bind_some, Store.descend, hstep]

/-! ### Patterns -/

/-- What the targets of a type are made like, shown by one of them. -/
structure Pattern where
  store : Store
  target : Value

namespace Pattern

def look (pattern : Pattern) : Face := pattern.store.look pattern.target

/-- Why a write into the targets is refused, if it is. -/
def refusal? (pattern : Pattern) (slot : Slot) : Option Refusal :=
  pattern.store.refusal? pattern.target slot

/-- The faults in which a write fails, if it does. -/
def failureOf? (pattern : Pattern) (w : Write) : Option (Raised → Prop) :=
  match w.2 with
  | .fault is => some fun e ↦ is e ∧ ¬ e.StopsIteration
  | .value _ => (pattern.refusal? w.1).map fun refusal e ↦ e.fault = refusal.toFault w.1

/-- What is expected of a mapper with these writes: a fault of the earliest that fails, or a target
that looks like the pattern with the values laid over it. -/
def expectation (pattern : Pattern) (writes : List Write) : Expectation :=
  match writes.findSome? pattern.failureOf? with
  | some is => .fault is
  | none => .value (overlay pattern.look writes)

theorem failureOf?_eq_none_iff {pattern : Pattern} {w : Write} :
    pattern.failureOf? w = none ↔ (∀ is, w.2 ≠ .fault is) ∧ pattern.refusal? w.1 = none := by
  obtain ⟨slot, e⟩ := w
  cases e <;> simp [failureOf?]

/-- The earliest write that fails. -/
def decider? (pattern : Pattern) (writes : List Write) : Option Write :=
  writes.find? fun w ↦ (pattern.failureOf? w).isSome

theorem decider?_append (pattern : Pattern) (writes more : List Write) :
    pattern.decider? (writes ++ more) =
      (pattern.decider? writes).or (pattern.decider? more) :=
  List.find?_append

theorem exists_of_decider? {pattern : Pattern} {writes : List Write} {w : Write}
    (h : pattern.decider? writes = some w) : ∃ is, pattern.failureOf? w = some is := by
  have hsome : (pattern.failureOf? w).isSome = true :=
    @List.find?_some _ (fun w ↦ (pattern.failureOf? w).isSome) _ _ h
  exact Option.isSome_iff_exists.mp hsome

theorem findSome?_failureOf? (pattern : Pattern) (writes : List Write) :
    writes.findSome? pattern.failureOf? = (pattern.decider? writes).bind pattern.failureOf? := by
  induction writes with
  | nil => rfl
  | cons w rest ih =>
    rw [List.findSome?_cons, decider?, List.find?_cons]
    cases hw : pattern.failureOf? w with
    | none => exact ih
    | some is => exact hw.symm

/-- The targets of one pattern hold at a slot what the targets of another pattern look like, and the
slot can be written. -/
structure Holds (pattern : Pattern) (slot : Slot) (inner : Pattern) : Prop where
  types_eq : inner.store.types = pattern.store.types
  look_eq : ∀ path, pattern.look (Access.along slot.path ++ path) = inner.look path
  allowed : pattern.refusal? slot = none

namespace Holds

variable {pattern inner : Pattern} {slot : Slot} {before after writes : List Write}

/-- A write further down is refused exactly when it is refused on the inner target. -/
theorem refusal?_extend_eq_none_iff (h : pattern.Holds slot inner) {path : List String}
    (hpath : path ≠ []) :
    pattern.refusal? (slot.extend path) = none ↔ inner.refusal? ⟨path⟩ = none := by
  obtain ⟨w, hw⟩ : ∃ w, pattern.store.descend pattern.target (Access.along slot.path) = some w := by
    have hhere := h.look_eq []
    rw [List.append_nil] at hhere
    cases hw : pattern.store.descend pattern.target (Access.along slot.path) with
    | none =>
      rw [look, Store.look, hw] at hhere
      cases hhere
    | some w => exact ⟨w, rfl⟩
  have hlook : inner.store.look inner.target = pattern.store.look w :=
    funext fun more ↦ (h.look_eq more).symm.trans (Store.look_append hw more)
  rw [Store.descend_along] at hw
  rw [refusal?, Store.refusal?_extend_eq_none_iff h.allowed hw hpath, refusal?,
    Store.refusal?_congr h.types_eq hlook]

/-- A write fails under the slot exactly when it fails on the inner target. -/
theorem failureOf?_under_eq_none_iff (h : pattern.Holds slot inner) {w : Write}
    (hw : w.1.path ≠ []) :
    pattern.failureOf? (w.under slot) = none ↔ inner.failureOf? w = none := by
  rw [failureOf?_eq_none_iff, failureOf?_eq_none_iff]
  exact and_congr_right' (h.refusal?_extend_eq_none_iff hw)

/-- The write of what the inner mapper gives fails exactly when one of its writes does. -/
theorem failureOf?_expectation (h : pattern.Holds slot inner) (writes : List Write) :
    pattern.failureOf? (slot, inner.expectation writes) =
      (writes.findSome? inner.failureOf?).map fun is e ↦ is e ∧ ¬ e.StopsIteration := by
  rw [expectation]
  cases writes.findSome? inner.failureOf? with
  | none => simp [failureOf?, h.allowed]
  | some is => rfl

/-- When no write fails, both mappers give targets that look the same. -/
theorem overlay_flatten (h : pattern.Holds slot inner)
    (hafter : ∀ w ∈ after, slot.overlaps w.1 = false)
    (hnone : (before ++ (slot, inner.expectation writes) :: after).findSome? pattern.failureOf? =
      none) :
    overlay pattern.look (before ++ (slot, inner.expectation writes) :: after) =
      overlay pattern.look (before ++ (writes.map (Write.under slot) ++ after)) := by
  have hinner : writes.findSome? inner.failureOf? = none := by
    have hnested := List.findSome?_eq_none_iff.mp hnone (slot, inner.expectation writes) (by simp)
    rwa [h.failureOf?_expectation, Option.map_eq_none_iff] at hnested
  refine Recast.overlay_flatten ?_ h.look_eq hafter
  rw [expectation, hinner]
  rfl

/-- One mapper fails when the other does. -/
theorem findSome?_flatten_eq_none_iff (h : pattern.Holds slot inner)
    (hwrites : ∀ w ∈ writes, w.1.path ≠ []) :
    (before ++ (slot, inner.expectation writes) :: after).findSome? pattern.failureOf? = none ↔
      (before ++ (writes.map (Write.under slot) ++ after)).findSome? pattern.failureOf? = none := by
  have hinner : pattern.failureOf? (slot, inner.expectation writes) = none ↔
      ∀ w ∈ writes, pattern.failureOf? (w.under slot) = none := by
    rw [h.failureOf?_expectation, Option.map_eq_none_iff, List.findSome?_eq_none_iff]
    exact forall₂_congr fun w hw ↦ (h.failureOf?_under_eq_none_iff (hwrites w hw)).symm
  simp only [List.findSome?_eq_none_iff, List.forall_mem_append, List.forall_mem_cons,
    List.forall_mem_map, hinner]

/-- Under the slot, the write decides that decides on the inner target. -/
theorem decider?_under (h : pattern.Holds slot inner) (hwrites : ∀ w ∈ writes, w.1.path ≠ []) :
    pattern.decider? (writes.map (Write.under slot)) =
      (inner.decider? writes).map (Write.under slot) := by
  have hsame : ∀ w ∈ writes,
      (pattern.failureOf? (w.under slot)).isSome = (inner.failureOf? w).isSome := by
    intro w hw
    rw [Bool.eq_iff_iff, Option.isSome_iff_ne_none, Option.isSome_iff_ne_none]
    exact not_congr (h.failureOf?_under_eq_none_iff (hwrites w hw))
  rw [decider?, List.find?_map]
  exact congrArg _ (List.find?_congr hsame)

/-- When a compute decides the failure of the writes that are laid one by one, the other mapper
fails by the same compute. -/
theorem exists_fault_of_decider? (h : pattern.Holds slot inner)
    (hwrites : ∀ w ∈ writes, w.1.path ≠ []) {place : Slot} {is : Raised → Prop}
    (hdecider : pattern.decider? (before ++ (writes.map (Write.under slot) ++ after)) =
      some (place, .fault is)) :
    ∃ is', pattern.expectation (before ++ (slot, inner.expectation writes) :: after) = .fault is' ∧
      ∀ e, is' e → is e := by
  have hfound : ∃ is', (before ++ (slot, inner.expectation writes) :: after).findSome?
      pattern.failureOf? = some is' ∧ ∀ e, is' e → is e := by
    rw [List.findSome?_append, List.findSome?_cons, h.failureOf?_expectation,
      pattern.findSome?_failureOf?, pattern.findSome?_failureOf?, inner.findSome?_failureOf?]
    rw [decider?_append, decider?_append, h.decider?_under hwrites] at hdecider
    cases hbefore : pattern.decider? before with
    | some w =>
      rw [hbefore] at hdecider
      cases hdecider
      exact ⟨_, rfl, fun e he ↦ he.1⟩
    | none =>
      rw [hbefore, Option.none_or] at hdecider
      cases hinner : inner.decider? writes with
      | some w =>
        obtain ⟨path, e⟩ := w
        rw [hinner] at hdecider
        cases hdecider
        exact ⟨_, rfl, fun e he ↦ he.1.1⟩
      | none =>
        rw [hinner, Option.map_none, Option.none_or] at hdecider
        rw [hdecider]
        exact ⟨_, rfl, fun e he ↦ he.1⟩
  obtain ⟨is', hfind, his⟩ := hfound
  exact ⟨is', by rw [expectation, hfind], his⟩

/-- Both mappers end alike: in targets that look the same when no write fails, else in faults, and
in those of the same compute if a compute decides. -/
theorem ends_alike (h : pattern.Holds slot inner) (hwrites : ∀ w ∈ writes, w.1.path ≠ [])
    (hafter : ∀ w ∈ after, slot.overlaps w.1 = false) {m₁ m₂ : Machine} {o₁ o₂ : Outcome}
    (h₁ : (pattern.expectation
      (before ++ (slot, inner.expectation writes) :: after)).promise.Kept m₁ o₁)
    (h₂ : (pattern.expectation
      (before ++ (writes.map (Write.under slot) ++ after))).promise.Kept m₂ o₂) :
    (pattern.decider? (before ++ (writes.map (Write.under slot) ++ after)) = none ∧
        ∃ v₁ v₂, o₁ = .ok v₁ ∧ o₂ = .ok v₂ ∧ m₁.store.look v₁ = m₂.store.look v₂) ∨
      ∃ w e₁ e₂, pattern.decider? (before ++ (writes.map (Write.under slot) ++ after)) = some w ∧
        o₁ = .error e₁ ∧ o₂ = .error e₂ ∧ ∀ is, w.2 = .fault is → is e₁ ∧ is e₂ := by
  have hiff : (before ++ (slot, inner.expectation writes) :: after).findSome?
      pattern.failureOf? = none ↔ _ := h.findSome?_flatten_eq_none_iff hwrites
  have hfind := pattern.findSome?_failureOf? (before ++ (writes.map (Write.under slot) ++ after))
  cases hdecider : pattern.decider? (before ++ (writes.map (Write.under slot) ++ after)) with
  | none =>
    rw [hdecider, Option.bind_none] at hfind
    have hnested := hiff.mpr hfind
    rw [expectation, hnested] at h₁
    rw [expectation, hfind] at h₂
    obtain ⟨v₁, ho₁, hlook₁⟩ := Expectation.kept_value_iff.mp h₁
    obtain ⟨v₂, ho₂, hlook₂⟩ := Expectation.kept_value_iff.mp h₂
    refine Or.inl ⟨rfl, v₁, v₂, ho₁, ho₂, ?_⟩
    rw [hlook₁, hlook₂, h.overlay_flatten hafter hnested]
  | some w =>
    obtain ⟨is₂, hfails⟩ := exists_of_decider? hdecider
    rw [hdecider, Option.bind_some, hfails] at hfind
    obtain ⟨is₁, hnested⟩ := Option.ne_none_iff_exists'.mp
      (mt hiff.mp (Option.ne_none_iff_exists'.mpr ⟨is₂, hfind⟩))
    have hfault₁ : pattern.expectation (before ++ (slot, inner.expectation writes) :: after) =
        .fault is₁ := by rw [expectation, hnested]
    rw [hfault₁] at h₁
    rw [expectation, hfind] at h₂
    obtain ⟨e₁, ho₁, he₁, _⟩ := Expectation.kept_fault_iff.mp h₁
    obtain ⟨e₂, ho₂, he₂, _⟩ := Expectation.kept_fault_iff.mp h₂
    refine Or.inr ⟨w, e₁, e₂, rfl, ho₁, ho₂, ?_⟩
    intro is his
    constructor
    · obtain ⟨place, e⟩ := w
      subst his
      obtain ⟨is', hfault, himplies⟩ := h.exists_fault_of_decider? hwrites hdecider
      rw [hfault₁] at hfault
      cases hfault
      exact himplies e₁ he₁
    · rw [failureOf?, his] at hfails
      cases hfails
      exact he₂.1

end Holds

end Pattern

/-! ### Plans -/

namespace Plan

variable {plan : Plan}

/-- A rule fails in one of the faults by which an iteration stops only against its promise. -/
theorem not_stopsIteration_of_failure? {is : Raised → Prop} (h : plan.failure? = some is)
    {e : Raised} (he : is e) : ¬ e.StopsIteration := by
  obtain ⟨r, _, hr⟩ := List.exists_of_findSome?_eq_some h
  unfold failureOf? at hr
  split at hr
  next =>
    cases hr
    exact he.2
  next =>
    split at hr
    next refusal _ =>
      cases hr
      obtain ⟨id, fault⟩ := e
      obtain rfl : fault = refusal.toFault r.slot := he
      exact Rule.not_stopsIteration_toFault refusal r.slot id
    next => cases hr

/-- The writes of rules, with what is expected of their computes. -/
def writes (expect : Rule → Expectation) (rules : List Rule) : List Write :=
  rules.map fun r ↦ (r.slot, expect r)

/-- A plan whose target was made like a pattern and whose rules promise what is expected fails as
the pattern tells. -/
theorem findSome?_writes_of_look {pattern : Pattern} {expect : Rule → Expectation}
    (hpromise : plan.promise = fun r ↦ (expect r).promise)
    (htypes : plan.built.types = pattern.store.types)
    (hlook : plan.built.look plan.target = pattern.look) :
    (writes expect plan.rules).findSome? pattern.failureOf? = plan.failure? := by
  rw [writes, List.findSome?_map]
  refine congrArg (List.findSome? · plan.rules) (funext fun r ↦ ?_)
  have hrefusal : pattern.refusal? r.slot = plan.built.refusal? plan.target r.slot :=
    (Store.refusal?_congr htypes hlook r.slot).symm
  simp only [Function.comp_apply, Pattern.failureOf?, failureOf?, hpromise, hrefusal,
    Store.refusal?]
  cases expect r with
  | fault is => rfl
  | value face => cases plan.built.landing plan.target r.slot <;> rfl

/-- The target of a plan looks like a pattern and its records are told apart, and its rules, which
are for fields, promise what is expected. -/
structure Follows (plan : Plan) (pattern : Pattern) (expect : Rule → Expectation) : Prop where
  promise_eq : plan.promise = fun r ↦ (expect r).promise
  field : ∀ r ∈ plan.rules, r.kind = .field
  types_eq : plan.built.types = pattern.store.types
  look_eq : plan.built.look plan.target = pattern.look
  tree : plan.built.IsTree plan.target plan.region

namespace Follows

variable {pattern : Pattern} {expect : Rule → Expectation} {m : Machine} {o : Outcome}

/-- The plan fails as the pattern tells. -/
theorem findSome?_writes (hplan : plan.Follows pattern expect) :
    (writes expect plan.rules).findSome? pattern.failureOf? = plan.failure? :=
  findSome?_writes_of_look hplan.promise_eq hplan.types_eq hplan.look_eq

theorem ne_whole (hplan : plan.Follows pattern expect) {r : Rule} (hrules : plan.rules = [r]) :
    r.kind ≠ .whole := by
  rw [hplan.field r (hrules ▸ List.mem_singleton_self r)]
  exact nofun

/-- A mapper of field rules that do not fail gives its target. -/
theorem eq_target (hplan : plan.Follows pattern expect) (h : plan.Ending m o)
    (hnone : plan.failure? = none) : o = .ok plan.target := by
  cases h with
  | failed h =>
    rw [hnone] at h
    cases h
  | filled => rfl
  | whole _ hrules hkind => exact absurd hkind (hplan.ne_whole hrules)
  | object _ hrules hkind => exact absurd hkind (hplan.ne_whole hrules)

/-- A mapper of field rules gives what is expected of it. -/
theorem kept (hplan : plan.Follows pattern expect) (hm : m.store.types = plan.built.types)
    (h : plan.Ending m o) :
    (pattern.expectation (writes expect plan.rules)).promise.Kept m o := by
  rw [Pattern.expectation, hplan.findSome?_writes]
  cases h with
  | failed h he =>
    rw [h]
    exact ⟨he, not_stopsIteration_of_failure? h he⟩
  | filled h _ hvalues hothers =>
    rw [h]
    refine eq_overlay ?_ ?_
    · refine List.forall_mem_map.mpr ?_
      intro r hr more
      obtain ⟨v, hvalue, hwalk⟩ := hvalues r hr
      rw [← Store.descend_along] at hwalk
      rw [Store.look_append hwalk]
      rw [hplan.promise_eq] at hvalue
      cases hexpect : expect r with
      | fault is =>
        simp only [hexpect] at hvalue
        exact hvalue.elim
      | value face =>
        simp only [hexpect] at hvalue
        exact congrFun hvalue more
    · intro path hpath
      have hclear : ∀ r ∈ plan.rules, ¬ Access.along r.slot.path <+: path := fun r hr ↦
        List.forall_mem_map.mp hpath r hr
      rw [← hplan.look_eq, Store.look, Store.look, descend_eq hplan.tree hm hothers hclear]
  | whole _ hrules hkind => exact absurd hkind (hplan.ne_whole hrules)
  | object _ hrules hkind => exact absurd hkind (hplan.ne_whole hrules)

end Follows

end Plan

end Recast
