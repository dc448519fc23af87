import Recast.Proofs.Nesting

/-!
Composition is flattening. A mapper can be the compute of a field rule of another builder. The same
target comes about when the rules of the inner builder are registered in place of this rule, each
further down the path of its slot: no registration is refused (`Builder.exists_registerAll`), and
the two mappers end alike (`Builder.composition_is_flattening`).
-/

set_option autoImplicit false

namespace Recast

/-! ### Registering further down a path -/

namespace Slot

theorem overlaps_extend_extend (s : Slot) (x y : Slot) :
    (s.extend x.path).overlaps (s.extend y.path) = x.overlaps y := by
  rw [Bool.eq_iff_iff, overlaps_iff, overlaps_iff]
  exact or_congr (List.prefix_append_right_inj _) (List.prefix_append_right_inj _)

/-- Further down a path, a slot stays apart from what it was apart from. -/
theorem overlaps_extend_eq_false {x s : Slot} (h : x.overlaps s = false) (more : List String) :
    x.overlaps (s.extend more) = false := by
  rw [Bool.eq_false_iff, ne_eq, overlaps_iff] at h ⊢
  rintro (hbelow | habove)
  · exact h (List.prefix_or_prefix_of_prefix hbelow (List.prefix_append _ _))
  · exact h (Or.inr ((List.prefix_append _ _).trans habove))

end Slot

/-- What a rule is about: its slot and its compute. -/
def Rule.entry (r : Rule) : Slot × Compute := (r.slot, r.compute)

/-- The rule of a field that a registration asks for, by a valid descriptor. -/
def Builder.AsksFor (registration : Slot.Kind × Slot.Descriptor × Compute)
    (entry : Slot × Compute) : Prop :=
  registration.1 = .field ∧ registration.2.1.IsValid ∧
    Slot.parseAs .field registration.2.1 = .ok entry.1 ∧ registration.2.2 = entry.2

/-- The rules of an outer builder with the rules of an inner one in place of one of them. -/
def Rule.flattened (before : List Rule) (nested : Rule) (inner after : List Rule) :
    List (Slot × Compute) :=
  before.map entry ++ (inner.map (fun r ↦ (nested.slot.extend r.slot.path, r.compute)) ++
    after.map entry)

namespace Builder

/-- Registrations for slots that are apart are all accepted. -/
theorem exists_registerAll {b : Builder} (hb : b.Registered)
    {registrations : List (Slot.Kind × Slot.Descriptor × Compute)} {entries : List (Slot × Compute)}
    (h : List.Forall₂ AsksFor registrations entries)
    (hapart : (b.rules.map Rule.slot ++ entries.map Prod.fst).Pairwise
      fun x y ↦ x.overlaps y = false) :
    ∃ b', b.registerAll registrations = .ok b' ∧ b'.Registered ∧ b'.target = b.target ∧
      b'.rules.map Rule.entry = b.rules.map Rule.entry ++ entries ∧
      ((∀ r ∈ b.rules, r.kind = .field) → ∀ r ∈ b'.rules, r.kind = .field) := by
  induction h generalizing b with
  | nil => exact ⟨b, rfl, hb, rfl, (List.append_nil _).symm, fun h ↦ h⟩
  | @cons registration entry registrations entries hasks _ ih =>
    obtain ⟨kind, d, f⟩ := registration
    obtain ⟨s, f'⟩ := entry
    obtain ⟨rfl, hd, hparse, rfl⟩ := hasks
    have hclear : ∀ x ∈ b.slots.map Prod.snd, s.overlaps x = false := by
      intro x hx
      rw [hb.consistent.map_snd_slots] at hx
      rw [Slot.overlaps_comm]
      exact (List.pairwise_append.mp hapart).2.2 x hx s List.mem_cons_self
    have hregister := register_of_clear hparse hclear f
    have hrules : (b.push (b.newRule .field s f)).rules.map Rule.slot ++ entries.map Prod.fst =
        b.rules.map Rule.slot ++ ((s, f) :: entries).map Prod.fst := by
      simp [push, newRule, Rule.slot]
    obtain ⟨b', hall, hb', htarget, hentries, hfields⟩ :=
      ih (hb.register hd hregister) (hrules ▸ hapart)
    refine ⟨b', ?_, hb', htarget, ?_, fun hfield ↦ hfields ?_⟩
    · rw [registerAll, hregister]
      exact hall
    · rw [hentries]
      simp [push, newRule, Rule.entry, Rule.slot]
    · exact List.forall_mem_append.mpr ⟨hfield, List.forall_mem_singleton.mpr rfl⟩

/-- The slots of the flattened rules are apart when those of the two builders are. -/
theorem pairwise_flattened {before after inner : List Rule} {nested : Rule}
    (houter : (before ++ nested :: after).Pairwise fun r s ↦ r.slot.overlaps s.slot = false)
    (hinner : inner.Pairwise fun r s ↦ r.slot.overlaps s.slot = false) :
    ((Rule.flattened before nested inner after).map Prod.fst).Pairwise
      fun x y ↦ x.overlaps y = false := by
  obtain ⟨hbefore, hnested, hacross⟩ := List.pairwise_append.mp houter
  obtain ⟨hbeside, hafter⟩ := List.pairwise_cons.mp hnested
  have hunder : ∀ r ∈ inner, ∀ s ∈ after,
      (nested.slot.extend r.slot.path).overlaps s.slot = false := by
    intro r _ s hs
    rw [Slot.overlaps_comm]
    exact Slot.overlaps_extend_eq_false ((Slot.overlaps_comm _ _).trans (hbeside s hs)) _
  simp only [Rule.flattened, List.map_append, List.map_map]
  refine List.pairwise_append.mpr ⟨List.pairwise_map.mpr hbefore,
    List.pairwise_append.mpr ⟨List.pairwise_map.mpr ?_, List.pairwise_map.mpr hafter, ?_⟩, ?_⟩
  · exact hinner.imp fun hrs ↦ (Slot.overlaps_extend_extend _ _ _).trans hrs
  · exact List.forall_mem_map.mpr fun r hr ↦ List.forall_mem_map.mpr fun s hs ↦ hunder r hr s hs
  · refine List.forall_mem_map.mpr fun r hr ↦ List.forall_mem_append.mpr ⟨?_, ?_⟩
    · exact List.forall_mem_map.mpr fun s _ ↦ Slot.overlaps_extend_eq_false
        (hacross r hr nested List.mem_cons_self) _
    · exact List.forall_mem_map.mpr fun s hs ↦ hacross r hr s (List.mem_cons_of_mem _ hs)

theorem mapperOf_eq_ok {b : Builder} {kind : Mapper.Kind} {mapper : Mapper}
    (h : b.mapperOf kind = .ok mapper) :
    mapper = b.snapshot ∧ b.rules ≠ [] ∧
      (kind = .synchronous → ∀ r ∈ b.rules, r.isAsync = false) := by
  cases kind with
  | asynchronous =>
    obtain ⟨hmapper, hrules⟩ := build_eq_ok h
    exact ⟨hmapper, hrules, nofun⟩
  | synchronous =>
    obtain ⟨hrules, hsync, hmapper⟩ := buildSync_eq_ok_iff.mp h
    exact ⟨hmapper, hrules, fun _ ↦ hsync⟩

theorem mapperOf_of_rules {b : Builder} {kind : Mapper.Kind} (hrules : b.rules ≠ [])
    (hsync : kind = .synchronous → ∀ r ∈ b.rules, r.isAsync = false) :
    b.mapperOf kind = .ok b.snapshot := by
  have hempty : b.rules.isEmpty = false := by simpa using hrules
  cases kind with
  | asynchronous => simp only [mapperOf, build, hempty, Bool.false_eq_true, if_false]
  | synchronous =>
    have hkeys : b.asynchronousKeys = [] := by
      have hnone : b.rules.filter Rule.isAsync = [] :=
        List.filter_eq_nil_iff.mpr fun r hr ↦ Bool.eq_false_iff.mp (hsync rfl r hr)
      rw [asynchronousKeys, hnone]
      rfl
    simp [mapperOf, buildSync, hempty, hkeys]

/-! ### Mappers in mappers -/

/-- A mapper of an inner builder is the compute of a rule of an outer builder, both of field rules.
-/
structure Nests (outer inner : Builder) (kind innerKind : Mapper.Kind) (before : List Rule)
    (nested : Rule) (after : List Rule) : Prop where
  registered : outer.Registered
  field : ∀ r ∈ outer.rules, r.kind = .field
  builds : outer.mapperOf kind = .ok outer.snapshot
  inner_registered : inner.Registered
  inner_field : ∀ r ∈ inner.rules, r.kind = .field
  inner_builds : inner.mapperOf innerKind = .ok inner.snapshot
  rules_eq : outer.rules = before ++ nested :: after
  compute_eq : nested.compute = inner.snapshot.compute innerKind

namespace Nests

variable {outer inner : Builder} {kind innerKind : Mapper.Kind} {before after : List Rule}
  {nested : Rule}

/-- A synchronous mapper takes synchronous mappers only. -/
theorem kind_cases (h : outer.Nests inner kind innerKind before nested after) :
    innerKind = kind ∨ innerKind = .synchronous := by
  cases kind with
  | asynchronous => cases innerKind <;> simp
  | synchronous =>
    obtain ⟨_, _, hsync⟩ := mapperOf_eq_ok h.builds
    have hnested := hsync rfl nested (by simp [h.rules_eq])
    cases innerKind with
    | synchronous => exact Or.inl rfl
    | asynchronous =>
      rw [Rule.isAsync, h.compute_eq] at hnested
      cases hnested

/-- The other rules of the outer builder are for other slots. -/
theorem overlaps_eq_false (h : outer.Nests inner kind innerKind before nested after) {r : Rule}
    (hr : r ∈ before ∨ r ∈ after) : nested.slot.overlaps r.slot = false := by
  have hapart := h.registered.consistent.apart
  rw [h.rules_eq] at hapart
  obtain ⟨_, hnested, hacross⟩ := List.pairwise_append.mp hapart
  rcases hr with hr | hr
  · exact (Slot.overlaps_comm _ _).trans (hacross r hr nested List.mem_cons_self)
  · exact (List.pairwise_cons.mp hnested).1 r hr

theorem slot_ne (h : outer.Nests inner kind innerKind before nested after) {r : Rule}
    (hr : r ∈ before ∨ r ∈ after) : r.slot ≠ nested.slot := by
  intro heq
  have hclear := h.overlaps_eq_false hr
  rw [heq, Slot.overlaps_self] at hclear
  exact Bool.noConfusion hclear

/-- In place of the nested rule, the rules of the inner builder can be registered. -/
theorem exists_flat (h : outer.Nests inner kind innerKind before nested after) (id : ℕ)
    {registrations : List (Slot.Kind × Slot.Descriptor × Compute)}
    (hasks : List.Forall₂ AsksFor registrations
      (Rule.flattened before nested inner.rules after)) :
    ∃ flat, (Builder.empty id outer.source outer.target).registerAll registrations = .ok flat ∧
      flat.Registered ∧ flat.target = outer.target ∧ (∀ r ∈ flat.rules, r.kind = .field) ∧
      flat.rules.map Rule.entry = Rule.flattened before nested inner.rules after ∧
      flat.mapperOf kind = .ok flat.snapshot := by
  obtain ⟨_, _, hsync⟩ := mapperOf_eq_ok h.builds
  obtain ⟨_, hinner, hinnerSync⟩ := mapperOf_eq_ok h.inner_builds
  have hapart := h.registered.consistent.apart
  rw [h.rules_eq] at hapart
  obtain ⟨flat, hall, hflat, htarget, hentries, hfields⟩ :=
    exists_registerAll (.empty id outer.source outer.target) hasks
      (pairwise_flattened hapart h.inner_registered.consistent.apart)
  rw [Builder.empty, List.map_nil, List.nil_append] at hentries
  refine ⟨flat, hall, hflat, htarget, hfields nofun, hentries, mapperOf_of_rules ?_ ?_⟩
  · intro hnil
    have hnone : before = [] ∧ inner.rules = [] ∧ after = [] := by
      simpa [hnil, Rule.flattened] using hentries
    exact hinner hnone.2.1
  · intro hkind r hr
    have hinnerKind : innerKind = .synchronous := h.kind_cases.elim (·.trans hkind) fun heq ↦ heq
    have houterRule : ∀ s ∈ outer.rules, (s.compute.isAwaitable || s.compute.isAsync) = false :=
      hsync hkind
    have hinnerRule : ∀ s ∈ inner.rules, (s.compute.isAwaitable || s.compute.isAsync) = false :=
      hinnerSync hinnerKind
    rw [h.rules_eq] at houterRule
    obtain ⟨hbefore, hrest⟩ := List.forall_mem_append.mp houterRule
    have hentry : ∀ entry ∈ Rule.flattened before nested inner.rules after,
        (entry.2.isAwaitable || entry.2.isAsync) = false :=
      List.forall_mem_append.mpr ⟨List.forall_mem_map.mpr hbefore, List.forall_mem_append.mpr
        ⟨List.forall_mem_map.mpr hinnerRule,
          List.forall_mem_map.mpr (List.forall_mem_cons.mp hrest).2⟩⟩
    exact hentry r.entry (hentries ▸ List.mem_map_of_mem hr)

section Expect

variable {c : Surroundings} {source : Value} {pattern innerPattern : Pattern}
  {expect : Compute → Expectation}

/-- What is expected of the rules of the outer builder, when something is expected of the computes
and the nested one gives what is expected of the inner mapper. -/
def outerExpect (expect : Compute → Expectation) (innerPattern : Pattern) (inner : Builder)
    (nested : Rule) (r : Rule) : Expectation :=
  if r.slot = nested.slot then
    innerPattern.expectation (Plan.writes (fun s ↦ expect s.compute) inner.rules)
  else expect r.compute

theorem writes_outer (h : outer.Nests inner kind innerKind before nested after) :
    Plan.writes (outerExpect expect innerPattern inner nested) outer.rules =
      Plan.writes (fun r ↦ expect r.compute) before ++
        (nested.slot,
          innerPattern.expectation (Plan.writes (fun r ↦ expect r.compute) inner.rules)) ::
        Plan.writes (fun r ↦ expect r.compute) after := by
  have hothers : ∀ rules : List Rule, (∀ r ∈ rules, r.slot ≠ nested.slot) →
      Plan.writes (outerExpect expect innerPattern inner nested) rules =
        Plan.writes (fun r ↦ expect r.compute) rules := fun rules hne ↦
    List.map_congr_left fun r hr ↦ congrArg _ (if_neg (hne r hr))
  have hnested : outerExpect expect innerPattern inner nested nested =
      innerPattern.expectation (Plan.writes (fun r ↦ expect r.compute) inner.rules) := if_pos rfl
  rw [← hothers before fun r hr ↦ h.slot_ne (Or.inl hr),
    ← hothers after fun r hr ↦ h.slot_ne (Or.inr hr), h.rules_eq, ← hnested]
  simp only [Plan.writes, List.map_append, List.map_cons]

theorem writes_flat {flat : Builder}
    (hentries : flat.rules.map Rule.entry = Rule.flattened before nested inner.rules after) :
    Plan.writes (fun r ↦ expect r.compute) flat.rules =
      Plan.writes (fun r ↦ expect r.compute) before ++
        ((Plan.writes (fun r ↦ expect r.compute) inner.rules).map (Write.under nested.slot) ++
          Plan.writes (fun r ↦ expect r.compute) after) := by
  have hwrites : ∀ rules : List Rule, Plan.writes (fun r ↦ expect r.compute) rules =
      (rules.map Rule.entry).map fun entry ↦ (entry.1, expect entry.2) := fun rules ↦ by
    rw [List.map_map]
    rfl
  rw [hwrites flat.rules, hentries]
  simp only [Rule.flattened, Plan.writes, List.map_append, List.map_map]
  rfl

theorem provides_outer (h : outer.Nests inner kind innerKind before nested after)
    (hsource : source ≠ .null) (hmakes : c.Makes outer.target pattern)
    (hinnerMakes : c.Makes inner.target innerPattern)
    (hcomputes : ∀ r ∈ before ++ after, c.Gives source (expect r.compute) r.compute kind)
    (hinner : ∀ r ∈ inner.rules, c.Gives source (expect r.compute) r.compute innerKind) :
    c.Provides (pattern.expectation
        (Plan.writes (outerExpect expect innerPattern inner nested) outer.rules)).promise.Kept
      (outer.snapshot.program kind source) := by
  obtain ⟨_, hrules, _⟩ := mapperOf_eq_ok h.builds
  obtain ⟨_, hinnerRules, _⟩ := mapperOf_eq_ok h.inner_builds
  have hnested : c.Gives source
      (innerPattern.expectation (Plan.writes (fun r ↦ expect r.compute) inner.rules))
      nested.compute kind :=
    h.compute_eq ▸ h.inner_registered.consistent.gives_compute h.inner_field hinnerRules hsource
      hinnerMakes h.kind_cases hinner
  refine h.registered.consistent.provides_program h.field hrules hsource hmakes ?_
  intro r hr
  rw [h.rules_eq] at hr
  rcases List.mem_append.mp hr with hbefore | hrest
  · rw [outerExpect, if_neg (h.slot_ne (Or.inl hbefore))]
    exact hcomputes r (List.mem_append_left _ hbefore)
  rcases List.mem_cons.mp hrest with rfl | hafter
  · rw [outerExpect, if_pos rfl]
    exact hnested
  · rw [outerExpect, if_neg (h.slot_ne (Or.inr hafter))]
    exact hcomputes r (List.mem_append_right _ hafter)

theorem provides_flat {flat : Builder} (hflat : flat.Registered)
    (htarget : flat.target = outer.target) (hfields : ∀ r ∈ flat.rules, r.kind = .field)
    (hbuilds : flat.mapperOf kind = .ok flat.snapshot)
    (hentries : flat.rules.map Rule.entry = Rule.flattened before nested inner.rules after)
    (hsource : source ≠ .null) (hmakes : c.Makes outer.target pattern)
    (hcomputes : ∀ r ∈ before ++ after, c.Gives source (expect r.compute) r.compute kind)
    (hinner : ∀ r ∈ inner.rules, c.Gives source (expect r.compute) r.compute kind) :
    c.Provides (pattern.expectation
        (Plan.writes (fun r ↦ expect r.compute) flat.rules)).promise.Kept
      (flat.snapshot.program kind source) := by
  obtain ⟨_, hrules, _⟩ := mapperOf_eq_ok hbuilds
  obtain ⟨hbefore, hafter⟩ := List.forall_mem_append.mp hcomputes
  have hentry : ∀ entry ∈ Rule.flattened before nested inner.rules after,
      c.Gives source (expect entry.2) entry.2 kind :=
    List.forall_mem_append.mpr ⟨List.forall_mem_map.mpr hbefore, List.forall_mem_append.mpr
      ⟨List.forall_mem_map.mpr hinner, List.forall_mem_map.mpr hafter⟩⟩
  exact hflat.consistent.provides_program hfields hrules hsource (htarget ▸ hmakes) fun r hr ↦
    hentry r.entry (hentries ▸ List.mem_map_of_mem hr)

end Expect

end Nests

/-- Composition is flattening. In place of a rule whose compute is a mapper, the rules of this
mapper can be registered, each further down the path of the slot, and no registration is refused. If
every target has at this slot an object like those that the inner mapper fills, one that can be
assigned, and the computes depend on the source alone, those of the inner rules in both mappers,
then the two outer mappers end alike from every source but nothing. Both can always come to an end.
However they are run, and wherever each of them starts, both end in targets that look the same, or
both end in a fault; and when it is a compute by which the earliest failing rule fails, both end in
the fault that is expected of this compute. -/
theorem composition_is_flattening {outer inner : Builder} {kind innerKind : Mapper.Kind}
    {before after : List Rule} {nested : Rule}
    (h : outer.Nests inner kind innerKind before nested after) (id : ℕ)
    {registrations : List (Slot.Kind × Slot.Descriptor × Compute)}
    (hasks : List.Forall₂ AsksFor registrations
      (Rule.flattened before nested inner.rules after)) :
    ∃ flat, (Builder.empty id outer.source outer.target).registerAll registrations = .ok flat ∧
      flat.mapperOf kind = .ok flat.snapshot ∧
      ∀ (c : Surroundings) (source : Value) (pattern innerPattern : Pattern)
        (expect : Compute → Expectation), source ≠ .null → c.Makes outer.target pattern →
        c.Makes inner.target innerPattern → pattern.Holds nested.slot innerPattern →
        (∀ r ∈ before ++ after, c.Gives source (expect r.compute) r.compute kind) →
        (∀ r ∈ inner.rules, c.Gives source (expect r.compute) r.compute innerKind ∧
          c.Gives source (expect r.compute) r.compute kind) →
        ∀ m₁ m₂, c.holds m₁ → c.holds m₂ →
          (∃ own m' o, c.Run ∅ m₁ (.fresh (outer.snapshot.program kind source)) own m'
            (.settled o)) ∧
          (∃ own m' o, c.Run ∅ m₂ (.fresh (flat.snapshot.program kind source)) own m'
            (.settled o)) ∧
          ∀ own₁ own₂ m₁' m₂' o₁ o₂,
            c.Run ∅ m₁ (.fresh (outer.snapshot.program kind source)) own₁ m₁' (.settled o₁) →
            c.Run ∅ m₂ (.fresh (flat.snapshot.program kind source)) own₂ m₂' (.settled o₂) →
            (pattern.decider? (Plan.writes (fun r ↦ expect r.compute) flat.rules) = none ∧
                ∃ v₁ v₂, o₁ = .ok v₁ ∧ o₂ = .ok v₂ ∧ m₁'.store.look v₁ = m₂'.store.look v₂) ∨
              ∃ w e₁ e₂,
                pattern.decider? (Plan.writes (fun r ↦ expect r.compute) flat.rules) = some w ∧
                o₁ = .error e₁ ∧ o₂ = .error e₂ ∧ ∀ is, w.2 = .fault is → is e₁ ∧ is e₂ := by
  obtain ⟨flat, hall, hflat, htarget, hfields, hentries, hbuilds⟩ := h.exists_flat id hasks
  refine ⟨flat, hall, hbuilds, fun c source pattern innerPattern expect hsource hmakes hinnerMakes
    hholds hcomputes hinner m₁ m₂ hm₁ hm₂ ↦ ?_⟩
  have houterEnd := h.provides_outer hsource hmakes hinnerMakes hcomputes fun r hr ↦
    (hinner r hr).1
  have hflatEnd := Nests.provides_flat hflat htarget hfields hbuilds hentries hsource hmakes
    hcomputes fun r hr ↦ (hinner r hr).2
  refine ⟨houterEnd.exists_run hm₁, hflatEnd.exists_run hm₂, ?_⟩
  intro own₁ own₂ m₁' m₂' o₁ o₂ hrun₁ hrun₂
  have hkept₁ := houterEnd.of_run hm₁ hrun₁
  have hkept₂ := hflatEnd.of_run hm₂ hrun₂
  rw [h.writes_outer] at hkept₁
  rw [Nests.writes_flat hentries] at hkept₂ ⊢
  refine hholds.ends_alike (List.forall_mem_map.mpr fun r hr ↦ ?_)
    (List.forall_mem_map.mpr fun r hr ↦ ?_) hkept₁ hkept₂
  · exact h.inner_registered.consistent.path_ne_nil hr (h.inner_field r hr)
  · exact h.overlaps_eq_false (Or.inr hr)

end Builder

namespace Sample

def contact : Record := ⟨"Contact", [("phone", .null), ("mail", .null)]⟩

def person (ref : ℕ) : Record := ⟨"Person", [("name", .null), ("contact", .record ref "Contact")]⟩

section Look

variable {s s' : Store} {ref ref' : ℕ}

theorem attribute?_contact (htypes : s.types = [contactType, personType])
    (h : s.records[ref]? = some contact) (name : String) :
    s.attribute? (.record ref "Contact") name =
      if name = "phone" ∨ name = "mail" then some .null else none := by
  rw [Store.attribute?_record h (by simp [Store.type?, htypes, contactType])]
  by_cases hphone : name = "phone" <;> by_cases hmail : name = "mail" <;>
    simp [contact, List.lookup_cons, hphone, hmail, beq_eq_false_iff_ne.mpr]

theorem attribute?_person (htypes : s.types = [contactType, personType]) {inner : ℕ}
    (h : s.records[ref]? = some (person inner)) (name : String) :
    s.attribute? (.record ref "Person") name =
      if name = "name" then some .null
      else if name = "contact" then some (.record inner "Contact") else none := by
  rw [Store.attribute?_record h (by simp [Store.type?, htypes, contactType, personType])]
  by_cases hname : name = "name" <;> by_cases hcontact : name = "contact" <;>
    simp [person, List.lookup_cons, hname, hcontact, beq_eq_false_iff_ne.mpr]

theorem look_null (s s' : Store) : s'.look .null = s.look .null :=
  Store.look_eq_of_access (fun s a ↦ by cases a <;> rfl) s s'

theorem look_contact (htypes : s.types = [contactType, personType])
    (htypes' : s'.types = [contactType, personType]) (h : s.records[ref]? = some contact)
    (h' : s'.records[ref']? = some contact) :
    s'.look (.record ref' "Contact") = s.look (.record ref "Contact") := by
  refine Store.look_record ?_
  intro name
  rw [attribute?_contact htypes h, attribute?_contact htypes' h']
  split_ifs
  · exact Or.inr ⟨.null, .null, rfl, rfl, look_null s s'⟩
  · exact Or.inl ⟨rfl, rfl⟩

theorem look_person (htypes : s.types = [contactType, personType])
    (htypes' : s'.types = [contactType, personType]) {inner inner' : ℕ}
    (hinner : s.records[inner]? = some contact) (hinner' : s'.records[inner']? = some contact)
    (h : s.records[ref]? = some (person inner)) (h' : s'.records[ref']? = some (person inner')) :
    s'.look (.record ref' "Person") = s.look (.record ref "Person") := by
  refine Store.look_record ?_
  intro name
  rw [attribute?_person htypes h, attribute?_person htypes' h']
  split_ifs
  · exact Or.inr ⟨.null, .null, rfl, rfl, look_null s s'⟩
  · exact Or.inr ⟨_, _, rfl, rfl, look_contact htypes htypes' hinner hinner'⟩
  · exact Or.inl ⟨rfl, rfl⟩

/-- No record is seen in a contact but itself. -/
theorem descend_contact (htypes : s.types = [contactType, personType])
    (h : s.records[ref]? = some contact) {path : List Access} {found : ℕ} {type : String}
    (hfound : s.descend (.record ref "Contact") path = some (.record found type)) :
    path = [] ∧ found = ref := by
  cases path with
  | nil =>
    cases hfound
    exact ⟨rfl, rfl⟩
  | cons a rest =>
    cases a with
    | member name =>
      rw [Store.descend, Store.access, attribute?_contact htypes h] at hfound
      split_ifs at hfound
      · cases rest with
        | nil => cases hfound
        | cons b rest => cases b <;> cases hfound
      · cases hfound
    | _ => cases hfound

/-- In a person, only the person and its contact are seen. -/
theorem descend_person (htypes : s.types = [contactType, personType]) {inner : ℕ}
    (hinner : s.records[inner]? = some contact) (h : s.records[ref]? = some (person inner))
    {path : List Access} {found : ℕ} {type : String}
    (hfound : s.descend (.record ref "Person") path = some (.record found type)) :
    path = [] ∧ found = ref ∨ path = [.member "contact"] ∧ found = inner := by
  cases path with
  | nil =>
    cases hfound
    exact Or.inl ⟨rfl, rfl⟩
  | cons a rest =>
    cases a with
    | member name =>
      rw [Store.descend, Store.access, attribute?_person htypes h] at hfound
      split_ifs at hfound with hname hcontact
      · cases rest with
        | nil => cases hfound
        | cons b rest => cases b <;> cases hfound
      · obtain ⟨rfl, rfl⟩ := descend_contact htypes hinner hfound
        exact Or.inr ⟨by rw [hcontact], rfl⟩
      · cases hfound
    | _ => cases hfound

end Look

/-- The types of the sample are known. -/
def known : Surroundings :=
  ⟨0, fun m ↦ m.store.types = [contactType, personType], fun _ ↦ Nat.zero_le _,
    fun hm h ↦ h.types.trans hm⟩

def contactPattern : Pattern := ⟨{ machine.store with records := #[contact] }, .record 0 "Contact"⟩

def personPattern : Pattern := ⟨built, .record 1 "Person"⟩

/-- The store with one more record. -/
def grown (s : Store) (r : Record) : Store := { s with records := s.records.push r }

theorem size_grown (s : Store) (r : Record) : (grown s r).records.size = s.records.size + 1 :=
  Array.size_push r

theorem records_grown_self (s : Store) (r : Record) :
    (grown s r).records[s.records.size]? = some r :=
  Array.getElem?_push_size

theorem records_grown_of_lt (s : Store) (r : Record) {ref : ℕ} (h : ref < s.records.size) :
    (grown s r).records[ref]? = s.records[ref]? :=
  (Array.getElem?_push_lt h).trans (Array.getElem?_eq_getElem h).symm

theorem sameBelow_grown {base : ℕ} {s : Store} (h : base ≤ s.records.size) (r : Record) :
    s.SameBelow base (grown s r) :=
  ⟨rfl, rfl, rfl, rfl, rfl, rfl, rfl, rfl, by rw [size_grown]; omega,
    fun _ href ↦ records_grown_of_lt s r (by omega)⟩

theorem construct_contact {s : Store} (htypes : s.types = [contactType, personType]) :
    Action.construct "Contact" s = (.ok (.record s.records.size "Contact"), grown s contact) := by
  obtain ⟨now, nextId, types, records, bindings, compiled, shared, coroutines, futures, customs,
    trace, log, lookups⟩ := s
  cases htypes
  rfl

theorem construct_person {s : Store} (htypes : s.types = [contactType, personType]) :
    Action.construct "Person" s =
      (.ok (.record (grown s contact).records.size "Person"),
        grown (grown s contact) (person s.records.size)) := by
  obtain ⟨now, nextId, types, records, bindings, compiled, shared, coroutines, futures, customs,
    trace, log, lookups⟩ := s
  cases htypes
  rfl

theorem makes_contact : known.Makes "Contact" contactPattern := by
  intro m hm
  have hrecord := records_grown_self m.store contact
  have htypes : (grown m.store contact).types = [contactType, personType] := hm
  refine ⟨hm, _, grown m.store contact, construct_contact hm, sameBelow_grown le_rfl _, rfl,
    ⟨?_, ?_⟩, look_contact rfl htypes rfl hrecord⟩
  · intro path ref type hfound
    obtain ⟨_, rfl⟩ := descend_contact htypes hrecord hfound
    exact ⟨le_rfl, by rw [size_grown]; omega⟩
  · intro path path' ref type type' hfound hfound'
    obtain ⟨rfl, _⟩ := descend_contact htypes hrecord hfound
    obtain ⟨rfl, _⟩ := descend_contact htypes hrecord hfound'
    rfl

theorem makes_person : known.Makes "Person" personPattern := by
  intro m hm
  have hsize := size_grown m.store contact
  have hcontact : (grown (grown m.store contact) (person m.store.records.size)).records[
      m.store.records.size]? = some contact :=
    (records_grown_of_lt _ _ (by omega)).trans (records_grown_self m.store contact)
  have hperson := records_grown_self (grown m.store contact) (person m.store.records.size)
  have htypes : (grown (grown m.store contact) (person m.store.records.size)).types =
      [contactType, personType] := hm
  have hinner : personPattern.store.records[0]? = some contact := rfl
  refine ⟨hm, _, grown (grown m.store contact) (person m.store.records.size), construct_person hm,
    (sameBelow_grown le_rfl _).trans (sameBelow_grown (by omega) _), rfl, ⟨?_, ?_⟩,
    look_person rfl htypes hinner hcontact rfl hperson⟩
  · intro path ref type hfound
    rw [Set.mem_Ico, size_grown, hsize]
    rcases descend_person htypes hcontact hperson hfound with ⟨_, rfl⟩ | ⟨_, rfl⟩ <;> omega
  · intro path path' ref type type' hfound hfound'
    rcases descend_person htypes hcontact hperson hfound with ⟨rfl, rfl⟩ | ⟨rfl, rfl⟩ <;>
      rcases descend_person htypes hcontact hperson hfound' with ⟨rfl, href⟩ | ⟨rfl, href⟩ <;>
      first
      | rfl
      | omega

/-- A person holds at its contact what a contact looks like. -/
theorem holds_contact : personPattern.Holds ⟨["contact"]⟩ contactPattern where
  types_eq := rfl
  look_eq path := congrFun (look_contact rfl rfl rfl rfl) path
  allowed := rfl

/-- A builder of contacts, given what computes the phone. -/
def contactBuilder (phone : Compute) : Builder :=
  ⟨1, "Customer", "Contact",
    [⟨.field, ⟨⟨["phone"]⟩, ⟨1, 0⟩⟩, phone⟩, ⟨.field, ⟨⟨["mail"]⟩, ⟨1, 1⟩⟩, slow⟩],
    [("target.phone", ⟨["phone"]⟩), ("target.mail", ⟨["mail"]⟩)]⟩

def nameRule : Rule := ⟨.field, ⟨⟨["name"]⟩, ⟨0, 0⟩⟩, .literal (.text "first")⟩

def contactRule (phone : Compute) : Rule :=
  ⟨.field, ⟨⟨["contact"]⟩, ⟨0, 1⟩⟩, (contactBuilder phone).snapshot.compute .asynchronous⟩

/-- A builder of persons that nests the builder of contacts. -/
def personBuilder (phone : Compute) : Builder :=
  ⟨0, "Customer", "Person", [nameRule, contactRule phone],
    [("target.name", ⟨["name"]⟩), ("target.contact", ⟨["contact"]⟩)]⟩

/-- A builder of persons that fills the contact itself. -/
def flatBuilder (phone : Compute) : Builder :=
  ⟨2, "Customer", "Person",
    [⟨.field, ⟨⟨["name"]⟩, ⟨2, 0⟩⟩, .literal (.text "first")⟩,
      ⟨.field, ⟨⟨["contact", "phone"]⟩, ⟨2, 1⟩⟩, phone⟩,
      ⟨.field, ⟨⟨["contact", "mail"]⟩, ⟨2, 2⟩⟩, slow⟩],
    [("target.name", ⟨["name"]⟩), ("target.contact.phone", ⟨["contact", "phone"]⟩),
      ("target.contact.mail", ⟨["contact", "mail"]⟩)]⟩

def flatRegistrations (phone : Compute) : List (Slot.Kind × Slot.Descriptor × Compute) :=
  [(.field, .text "name", .literal (.text "first")), (.field, .text "contact.phone", phone),
    (.field, .slot ⟨["contact", "mail"]⟩, slow)]

theorem nests (phone : Compute) :
    (personBuilder phone).Nests (contactBuilder phone) .asynchronous .asynchronous [nameRule]
      (contactRule phone) [] where
  registered := by
    have hall : (Builder.empty 0 "Customer" "Person").registerAll
        [(.field, .text "name", .literal (.text "first")),
          (.field, .text "contact", (contactRule phone).compute)] = .ok (personBuilder phone) := rfl
    refine (Builder.Registered.empty 0 "Customer" "Person").registerAll ?_ hall
    simp [Slot.Descriptor.IsValid]
  field := by simp [personBuilder, nameRule, contactRule]
  builds := rfl
  inner_registered := by
    have hall : (Builder.empty 1 "Customer" "Contact").registerAll
        [(.field, .text "phone", phone), (.field, .text "mail", slow)] =
          .ok (contactBuilder phone) := rfl
    refine (Builder.Registered.empty 1 "Customer" "Contact").registerAll ?_ hall
    simp [Slot.Descriptor.IsValid]
  inner_field := by simp [contactBuilder]
  inner_builds := rfl
  rules_eq := rfl
  compute_eq := rfl

theorem asksFor_flat (phone : Compute) :
    List.Forall₂ Builder.AsksFor (flatRegistrations phone)
      (Rule.flattened [nameRule] (contactRule phone) (contactBuilder phone).rules []) :=
  .cons ⟨rfl, trivial, rfl, rfl⟩ (.cons ⟨rfl, trivial, rfl, rfl⟩
    (.cons ⟨rfl, by decide, rfl, rfl⟩ .nil))

/-- What is expected of the computes of the sample, given what is expected for the phone. -/
def expect (phone : Expectation) : Compute → Expectation
  | .literal v => .value (Store.empty.look v)
  | .plain _ => phone
  | _ => .value (Store.empty.look (.text "last"))

theorem endsIn_text (t : String) :
    known.EndsIn (Expectation.value (Store.empty.look (.text t))).promise.Kept
      (Prog.give (.text t)) :=
  Surroundings.endsIn_give fun m _ ↦
    Store.look_eq_of_access (fun s a ↦ by cases a <;> rfl) Store.empty m.store

theorem isAwaitable_of_look_text {t : String} (m : Machine) (v : Value)
    (h : (Expectation.value (Store.empty.look (.text t))).promise.Kept m (.ok v)) :
    v.isAwaitable = false := by
  have hshell : v.shell = .text t := Option.some.inj (congrFun h [])
  rw [← v.isAwaitable_shell, hshell]
  rfl

section Gives

variable (source : Value) (phone : Expectation)

theorem gives_text (t : String) :
    known.Gives source (expect phone (.literal (.text t))) (.literal (.text t)) .asynchronous :=
  Surroundings.EndsIn.gives (endsIn_text t) rfl rfl isAwaitable_of_look_text _

theorem gives_slow : known.Gives source (expect phone slow) slow .asynchronous := by
  intro r hr
  have hevaluate : r.evaluate source =
      (Prog.sleep 100 fun _ ↦ Prog.give (.text "last")).asCoroutine := by
    rw [Rule.evaluate, hr]
    rfl
  rw [hevaluate]
  exact (Surroundings.Provides.sleep (endsIn_text "last").provides fun m now hm ↦ hm).asCoroutine
    fun m e he ↦ Promise.not_stopsIteration he

end Gives

/-- A phone that is computed at once. -/
def quick : Compute := .plain fun _ ↦ Prog.give (.text "first")

def quickFace : Expectation := .value (Store.empty.look (.text "first"))

def earlyFault : Expectation := .fault fun e ↦ e.fault = .general "ValueError" [.text "early"]

theorem gives_quick (source : Value) :
    known.Gives source (expect quickFace quick) quick .asynchronous :=
  Surroundings.EndsIn.gives (endsIn_text "first") rfl rfl isAwaitable_of_look_text _

theorem gives_early (source : Value) :
    known.Gives source (expect earlyFault early) early .asynchronous := by
  have hends : known.EndsIn earlyFault.promise.Kept (early.invoke source) :=
    Surroundings.endsIn_fail fun m id _ ↦ ⟨rfl, not_stopsIteration_general _ _ _ (by decide)⟩
  exact hends.gives rfl rfl (fun m v h ↦ h.elim) _

/-- Persons with a nested contact and persons with a flat one end alike: they look the same, or they
fail by the same fault of the phone. -/
theorem contact_in_person :
    (∃ flat,
      (Builder.empty 2 "Customer" "Person").registerAll (flatRegistrations quick) = .ok flat ∧
      (∃ own m' o, known.Run ∅ machine
        (.fresh ((personBuilder quick).snapshot.transform (.int 1))) own m' (.settled o)) ∧
      ∀ own₁ own₂ m₁ m₂ o₁ o₂, known.Run ∅ machine
          (.fresh ((personBuilder quick).snapshot.transform (.int 1))) own₁ m₁ (.settled o₁) →
        known.Run ∅ machine (.fresh (flat.snapshot.transform (.int 1))) own₂ m₂ (.settled o₂) →
        ∃ v₁ v₂, o₁ = .ok v₁ ∧ o₂ = .ok v₂ ∧ m₁.store.look v₁ = m₂.store.look v₂) ∧
    ∃ flat,
      (Builder.empty 2 "Customer" "Person").registerAll (flatRegistrations early) = .ok flat ∧
      ∀ own₁ own₂ m₁ m₂ o₁ o₂, known.Run ∅ machine
          (.fresh ((personBuilder early).snapshot.transform (.int 1))) own₁ m₁ (.settled o₁) →
        known.Run ∅ machine (.fresh (flat.snapshot.transform (.int 1))) own₂ m₂ (.settled o₂) →
        ∃ e₁ e₂, o₁ = .error e₁ ∧ o₂ = .error e₂ ∧
          e₁.fault = .general "ValueError" [.text "early"] ∧
          e₂.fault = .general "ValueError" [.text "early"] := by
  have hinner : ∀ phone e, known.Gives (.int 1) (expect e phone) phone .asynchronous →
      ∀ r ∈ (contactBuilder phone).rules,
        known.Gives (.int 1) (expect e r.compute) r.compute .asynchronous ∧
          known.Gives (.int 1) (expect e r.compute) r.compute .asynchronous := fun phone e hphone ↦
    List.forall_mem_cons.mpr ⟨⟨hphone, hphone⟩, List.forall_mem_singleton.mpr
      ⟨gives_slow (.int 1) e, gives_slow (.int 1) e⟩⟩
  have houter : ∀ e, ∀ r ∈ [nameRule] ++ [],
      known.Gives (.int 1) (expect e r.compute) r.compute .asynchronous := fun e ↦
    List.forall_mem_singleton.mpr (gives_text (.int 1) e "first")
  constructor
  · obtain ⟨flat, hall, _, hends⟩ :=
      Builder.composition_is_flattening (nests quick) 2 (asksFor_flat quick)
    have hflat : (Builder.empty 2 "Customer" "Person").registerAll (flatRegistrations quick) =
      .ok (flatBuilder quick) := rfl
    cases hflat.symm.trans hall
    obtain ⟨hexists, _, hsame⟩ := hends known (.int 1) personPattern contactPattern
      (expect quickFace) nofun makes_person makes_contact holds_contact (houter quickFace)
      (hinner quick quickFace (gives_quick (.int 1))) machine machine rfl rfl
    refine ⟨_, hflat, hexists, ?_⟩
    intro own₁ own₂ m₁ m₂ o₁ o₂ hrun₁ hrun₂
    rcases hsame own₁ own₂ m₁ m₂ o₁ o₂ hrun₁ hrun₂ with ⟨_, hlook⟩ | ⟨w, e₁, e₂, hdecider, _⟩
    · exact hlook
    · cases hdecider
  · obtain ⟨flat, hall, _, hends⟩ :=
      Builder.composition_is_flattening (nests early) 2 (asksFor_flat early)
    have hflat : (Builder.empty 2 "Customer" "Person").registerAll (flatRegistrations early) =
      .ok (flatBuilder early) := rfl
    cases hflat.symm.trans hall
    obtain ⟨_, _, hsame⟩ := hends known (.int 1) personPattern contactPattern
      (expect earlyFault) nofun makes_person makes_contact holds_contact (houter earlyFault)
      (hinner early earlyFault (gives_early (.int 1))) machine machine rfl rfl
    refine ⟨_, hflat, ?_⟩
    intro own₁ own₂ m₁ m₂ o₁ o₂ hrun₁ hrun₂
    rcases hsame own₁ own₂ m₁ m₂ o₁ o₂ hrun₁ hrun₂ with ⟨hdecider, _⟩ |
      ⟨w, e₁, e₂, hdecider, ho₁, ho₂, his⟩
    · cases hdecider
    · cases hdecider
      exact ⟨e₁, e₂, ho₁, ho₂, his _ rfl⟩

end Sample

end Recast
