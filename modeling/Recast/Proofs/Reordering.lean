import Recast.Proofs.Composition
import Recast.Proofs.Overlap
import Recast.Proofs.Verdict

/-!
Registering in another order. Field rules that are registered in one order are accepted exactly when
they are in another, for what decides is that each text names a field and that no two fields overlap
(`Builder.FieldsApart`). The two builders claim the same keys and hold the same rules, each in its
own order (`Builder.Reorders`). Writes that do not overlap can be laid over a face in any order
(`overlay_perm`), so the mappers of the two builders end alike: both fill targets that look the
same, or both fail (`Builder.registration_order_is_immaterial`). Computes may fail by any fault, the
one by which an iteration stops included, as what leaves a coroutine that ends in it is promised
(`Promise.Left`).
-/

set_option autoImplicit false

namespace Recast

/-! ### Writes in another order -/

section Overlay

variable {face : Face} {writes writes' : List Write} {w : Write}

/-- Slots on one way into a face overlap. -/
theorem Slot.overlaps_of_along {x y : Slot} {path : List Access}
    (hx : Access.along x.path <+: path) (hy : Access.along y.path <+: path) :
    x.overlaps y = true := by
  rw [Slot.overlaps_iff]
  exact (List.prefix_or_prefix_of_prefix hx hy).imp Access.along_prefix_iff.mp
    Access.along_prefix_iff.mp

/-- Where no slots overlap, each value is seen at its slot. -/
theorem overlay_of_mem (hapart : writes.Pairwise fun x y ↦ x.1.overlaps y.1 = false)
    (hw : w ∈ writes) (more : List Access) :
    overlay face writes (Access.along w.1.path ++ more) = w.2.face more := by
  rcases overlay_cases face writes (Access.along w.1.path ++ more) with
    ⟨other, hother, rest, hpath, heq⟩ | ⟨haway, _⟩
  · have hoverlaps : w.1.overlaps other.1 = true :=
      Slot.overlaps_of_along (List.prefix_append _ more) (hpath ▸ List.prefix_append _ rest)
    have hsymm : Std.Symm fun x y : Write ↦ x.1.overlaps y.1 = false :=
      ⟨fun x y h ↦ (Slot.overlaps_comm y.1 x.1).trans h⟩
    have hsame : w = other := by
      by_contra hne
      rw [hapart.forall hw hother hne] at hoverlaps
      exact Bool.noConfusion hoverlaps
    subst hsame
    rw [heq, List.append_cancel_left hpath]
  · exact absurd (List.prefix_append _ more) (haway w hw)

/-- The order of writes that do not overlap does not matter. -/
theorem overlay_perm (hapart : writes.Pairwise fun x y ↦ x.1.overlaps y.1 = false)
    (hperm : writes.Perm writes') : overlay face writes = overlay face writes' :=
  eq_overlay (fun _ hw more ↦ overlay_of_mem hapart (hperm.mem_iff.mpr hw) more)
    fun _ haway ↦ overlay_away fun w hw ↦ haway w (hperm.mem_iff.mp hw)

end Overlay

/-- Two outcomes, each on its machine, are the same but for the kind of failure: values that look
the same, or faults. -/
inductive EndsAlike (m m' : Machine) : Outcome → Outcome → Prop
  | values {v v' : Value} (h : m.store.look v = m'.store.look v') : EndsAlike m m' (.ok v) (.ok v')
  | faults (e e' : Raised) : EndsAlike m m' (.error e) (.error e')

namespace Pattern

variable {pattern : Pattern} {writes writes' : List Write} {m m' : Machine} {o o' : Outcome}

/-- Some write fails in one order exactly when one does in the other. -/
theorem findSome?_failureOf?_perm (hperm : writes.Perm writes') :
    writes.findSome? pattern.failureOf? = none ↔ writes'.findSome? pattern.failureOf? = none := by
  simp only [List.findSome?_eq_none_iff, hperm.mem_iff]

/-- What is expected of a mapper, but for the kind of failure, does not depend on the order. -/
theorem endsAlike_of_perm (hapart : writes.Pairwise fun x y ↦ x.1.overlaps y.1 = false)
    (hperm : writes.Perm writes') (h : (pattern.expectation writes).promise.Left m o)
    (h' : (pattern.expectation writes').promise.Left m' o') : EndsAlike m m' o o' := by
  rw [Pattern.expectation] at h h'
  cases hfails : writes.findSome? pattern.failureOf? with
  | none =>
    rw [hfails] at h
    rw [(findSome?_failureOf?_perm hperm).mp hfails] at h'
    obtain ⟨v, rfl, hlook⟩ := Expectation.left_value_iff.mp h
    obtain ⟨v', rfl, hlook'⟩ := Expectation.left_value_iff.mp h'
    exact .values (by rw [hlook, hlook', overlay_perm hapart hperm])
  | some is =>
    rw [hfails] at h
    obtain ⟨e, rfl⟩ := Expectation.exists_of_left_fault h
    cases hfails' : writes'.findSome? pattern.failureOf? with
    | none =>
      rw [(findSome?_failureOf?_perm hperm).mpr hfails'] at hfails
      cases hfails
    | some is' =>
      rw [hfails'] at h'
      obtain ⟨e', rfl⟩ := Expectation.exists_of_left_fault h'
      exact .faults e e'

end Pattern

/-- What leaves two mappers, when their rules ended alike, is alike. -/
theorem EndsAlike.letOut {m m' : Machine} {o o' o₁ o₁' : Outcome} (h : EndsAlike m m' o o')
    (hout : LetOut (Mapper.settle o) o₁) (hout' : LetOut (Mapper.settle o') o₁') :
    EndsAlike m m' o₁ o₁' := by
  have hfaults : ∀ {e e' : Raised}, LetOut (.error e) o₁ → LetOut (.error e') o₁' →
      EndsAlike m m' o₁ o₁' := by
    intro e e' h h'
    cases h <;> cases h' <;> exact .faults _ _
  cases h with
  | faults e e' => exact hfaults hout hout'
  | @values v v' hlook =>
    have hshell : v.shell = v'.shell := Store.shell_eq_of_look hlook
    rcases Mapper.fault_or_plain v with ⟨id, f, rfl⟩ | hv
    · obtain ⟨id', f', rfl, _⟩ := Value.exists_of_shell_eq_fault hshell.symm
      exact hfaults hout hout'
    · rcases Mapper.fault_or_plain v' with ⟨id, f, rfl⟩ | hv'
      · obtain ⟨_, _, rfl, _⟩ := Value.exists_of_shell_eq_fault hshell
        cases hv
      · rw [Mapper.settle_of_failure?_eq_none hv] at hout
        rw [Mapper.settle_of_failure?_eq_none hv'] at hout'
        cases hout
        cases hout'
        exact .values hlook

/-! ### Registering fields -/

/-- The slot of a field that a text is to name. -/
def Slot.named (text : String) : Slot := ⟨stepsOf text⟩

theorem Slot.Descriptor.Names.eq_named {text : String} {kind : Slot.Kind} {s : Slot}
    (h : (Slot.Descriptor.text text).Names kind s) : s = Slot.named text := by
  have hparse := h.1
  simp only [Slot.parse] at hparse
  split_ifs at hparse
  exact (Except.ok.inj hparse).symm

namespace Builder

/-- The registrations of fields, each by a text. -/
def fields (entries : List (String × Compute)) : List (Slot.Kind × Slot.Descriptor × Compute) :=
  entries.map fun e ↦ (.field, .text e.1, e.2)

/-- Each text names a field, and no two of the fields overlap. -/
structure FieldsApart (entries : List (String × Compute)) : Prop where
  named : ∀ e ∈ entries, (Slot.Descriptor.text e.1).Names .field (Slot.named e.1)
  apart : entries.Pairwise fun e f ↦ (Slot.named e.1).overlaps (Slot.named f.1) = false

theorem FieldsApart.perm {entries entries' : List (String × Compute)} (h : FieldsApart entries)
    (hperm : entries.Perm entries') : FieldsApart entries' where
  named e he := h.named e (hperm.mem_iff.mpr he)
  apart := hperm.pairwise h.apart fun hef ↦ (Slot.overlaps_comm _ _).trans hef

variable {b b' : Builder} {entries entries' : List (String × Compute)}

/-- Fields are all registered exactly when they are apart from each other and from the rules that
are there. -/
theorem Consistent.exists_registerAll_fields_iff (hb : b.Consistent) :
    (∃ b', b.registerAll (fields entries) = .ok b') ↔
      FieldsApart entries ∧
        ∀ e ∈ entries, ∀ r ∈ b.rules, (Slot.named e.1).overlaps r.slot = false := by
  induction entries generalizing b with
  | nil => exact ⟨fun _ ↦ ⟨⟨nofun, .nil⟩, nofun⟩, fun _ ↦ ⟨b, rfl⟩⟩
  | cons e rest ih =>
    have hvalid : (Slot.Descriptor.text e.1).IsValid := trivial
    have hpushed : ∀ f : String × Compute,
        (∀ r ∈ (b.push (b.newRule .field (Slot.named e.1) e.2)).rules,
          (Slot.named f.1).overlaps r.slot = false) ↔
        (∀ r ∈ b.rules, (Slot.named f.1).overlaps r.slot = false) ∧
          (Slot.named e.1).overlaps (Slot.named f.1) = false := by
      intro f
      rw [Slot.overlaps_comm (Slot.named e.1)]
      exact List.forall_mem_append.trans (and_congr_right' List.forall_mem_singleton)
    constructor
    · rintro ⟨b', h⟩
      rw [fields, List.map_cons, registerAll] at h
      cases hregister : b.register .field (.text e.1) e.2 with
      | error why =>
        rw [hregister] at h
        cases h
      | ok b₁ =>
        rw [hregister] at h
        obtain ⟨s, hparse, hclear, rfl⟩ := register_eq_ok hregister
        have hnames := Slot.parseAs_eq_ok_iff.mp hparse
        obtain rfl := Slot.Descriptor.Names.eq_named hnames
        obtain ⟨hrest, hothers⟩ := (ih (hb.register hvalid hregister)).mp ⟨b', h⟩
        have hsplit := fun f hf ↦ (hpushed f).mp (hothers f hf)
        rw [hb.map_snd_slots] at hclear
        refine ⟨⟨List.forall_mem_cons.mpr ⟨hnames, hrest.named⟩,
          List.pairwise_cons.mpr ⟨fun f hf ↦ (hsplit f hf).2, hrest.apart⟩⟩, ?_⟩
        exact List.forall_mem_cons.mpr
          ⟨fun r hr ↦ hclear r.slot (List.mem_map_of_mem hr), fun f hf ↦ (hsplit f hf).1⟩
    · rintro ⟨⟨hnamed, hapart⟩, hothers⟩
      obtain ⟨hnames, hnamed⟩ := List.forall_mem_cons.mp hnamed
      obtain ⟨hbeside, hapart⟩ := List.pairwise_cons.mp hapart
      obtain ⟨hclear, hothers⟩ := List.forall_mem_cons.mp hothers
      have hregister := register_of_names (c := e.2) hnames (hb.claimedBy?_eq_none_iff.mpr hclear)
      obtain ⟨b', h⟩ := (ih (hb.register hvalid hregister)).mpr
        ⟨⟨hnamed, hapart⟩, fun f hf ↦ (hpushed f).mpr ⟨hothers f hf, hbeside f hf⟩⟩
      refine ⟨b', ?_⟩
      rw [fields, List.map_cons, registerAll, hregister]
      exact h

/-- Each registration of a field that was accepted has added a rule for it. -/
theorem entries_of_registerAll_fields (h : b.registerAll (fields entries) = .ok b') :
    b'.rules.map Rule.entry =
        b.rules.map Rule.entry ++ entries.map (fun e ↦ (Slot.named e.1, e.2)) ∧
      b'.target = b.target ∧
      ((∀ r ∈ b.rules, r.kind = .field) → ∀ r ∈ b'.rules, r.kind = .field) := by
  induction entries generalizing b with
  | nil =>
    cases h
    exact ⟨(List.append_nil _).symm, rfl, fun hfields ↦ hfields⟩
  | cons e rest ih =>
    rw [fields, List.map_cons, registerAll] at h
    cases hregister : b.register .field (.text e.1) e.2 with
    | error why =>
      rw [hregister] at h
      cases h
    | ok b₁ =>
      rw [hregister] at h
      obtain ⟨s, hparse, -, rfl⟩ := register_eq_ok hregister
      obtain rfl := Slot.Descriptor.Names.eq_named (Slot.parseAs_eq_ok_iff.mp hparse)
      obtain ⟨hentries, htarget, hfields⟩ := ih h
      refine ⟨?_, htarget, fun hb ↦ hfields ?_⟩
      · rw [hentries]
        simp [push, newRule, Rule.entry, Rule.slot]
      · exact List.forall_mem_append.mpr ⟨hb, List.forall_mem_singleton.mpr rfl⟩

/-- Two builders map to one type and hold rules for the same fields with the same computes, each in
its own order. -/
structure Reorders (b b' : Builder) : Prop where
  registered : b.Registered
  registered' : b'.Registered
  target_eq : b'.target = b.target
  field : ∀ r ∈ b.rules, r.kind = .field
  field' : ∀ r ∈ b'.rules, r.kind = .field
  perm : (b.rules.map Rule.entry).Perm (b'.rules.map Rule.entry)

theorem registered_of_registerAll_fields (hb : b.Registered)
    (h : b.registerAll (fields entries) = .ok b') : b'.Registered := by
  refine hb.registerAll (fun registration hmem ↦ ?_) h
  obtain ⟨_, _, rfl⟩ := List.mem_map.mp hmem
  trivial

/-- Builders that were given the same fields in another order. -/
theorem reorders_of_perm {id id' : ℕ} {source source' target : String}
    (hperm : entries.Perm entries')
    (h : (Builder.empty id source target).registerAll (fields entries) = .ok b)
    (h' : (Builder.empty id' source' target).registerAll (fields entries') = .ok b') :
    b.Reorders b' := by
  obtain ⟨hentries, htarget, hfields⟩ := entries_of_registerAll_fields h
  obtain ⟨hentries', htarget', hfields'⟩ := entries_of_registerAll_fields h'
  refine ⟨registered_of_registerAll_fields (.empty ..) h,
    registered_of_registerAll_fields (.empty ..) h', htarget'.trans htarget.symm, hfields nofun,
    hfields' nofun, ?_⟩
  rw [hentries, hentries']
  exact hperm.map _

namespace Reorders

theorem symm (h : b.Reorders b') : b'.Reorders b :=
  ⟨h.registered', h.registered, h.target_eq.symm, h.field', h.field, h.perm.symm⟩

/-- The claimed keys are the same. -/
theorem keys_perm (h : b.Reorders b') : b.keys.Perm b'.keys := by
  have hkeys : ∀ {x : Builder}, x.Consistent →
      x.keys = (x.rules.map Rule.entry).map fun e ↦ e.1.key := by
    intro x hx
    rw [hx.keys_eq, List.map_map]
    rfl
  rw [hkeys h.registered.consistent, hkeys h.registered'.consistent]
  exact h.perm.map _

/-- A mapper of a kind can be made of the one when it can be made of the other. -/
theorem mapperOf (h : b.Reorders b') {kind : Mapper.Kind} {mapper : Mapper}
    (hmapper : b.mapperOf kind = .ok mapper) : b'.mapperOf kind = .ok b'.snapshot := by
  obtain ⟨rfl, hrules, hsync⟩ := mapperOf_eq_ok hmapper
  refine mapperOf_of_rules (fun hnone ↦ hrules ?_) fun hkind r hr ↦ ?_
  · have hlength := h.perm.length_eq
    rw [List.length_map, List.length_map, hnone] at hlength
    exact List.length_eq_zero_iff.mp hlength
  · obtain ⟨r₀, hr₀, heq⟩ :=
      List.mem_map.mp (h.perm.mem_iff.mpr (List.mem_map_of_mem (f := Rule.entry) hr))
    have hcompute : r₀.compute = r.compute := (Prod.mk.inj heq).2
    have hr₀sync := hsync hkind r₀ hr₀
    rwa [Rule.isAsync, hcompute] at hr₀sync

/-- The writes are the same, each in its own order. -/
theorem writes_perm (h : b.Reorders b') (expect : Compute → Expectation) :
    (Plan.writes (fun r ↦ expect r.compute) b.rules).Perm
      (Plan.writes (fun r ↦ expect r.compute) b'.rules) := by
  have hwrites : ∀ rules : List Rule, Plan.writes (fun r ↦ expect r.compute) rules =
      (rules.map Rule.entry).map fun e ↦ (e.1, expect e.2) := by
    intro rules
    rw [Plan.writes, List.map_map]
    rfl
  rw [hwrites, hwrites]
  exact h.perm.map _

theorem writes_apart (h : b.Reorders b') (expect : Compute → Expectation) :
    (Plan.writes (fun r ↦ expect r.compute) b.rules).Pairwise
      fun x y ↦ x.1.overlaps y.1 = false :=
  List.pairwise_map.mpr h.registered.consistent.apart

section Alike

variable {pattern : Pattern} {expect : Compute → Expectation} {source : Value} {m m' : Machine}

/-- What calls of the two asynchronous mappers give is alike. -/
theorem endsAlike_of_answers (h : b.Reorders b') {o o' o₁ o₁' : Outcome}
    (hanswers : b.Answers pattern (fun r ↦ expect r.compute) source m o)
    (hanswers' : b'.Answers pattern (fun r ↦ expect r.compute) source m' o')
    (hout : LetOut o o₁) (hout' : LetOut o' o₁') : EndsAlike m m' o₁ o₁' := by
  rcases hanswers with ⟨hnull, rfl⟩ | ⟨hsource, o₀, hkept, rfl⟩
  · rcases hanswers' with ⟨_, rfl⟩ | ⟨hsource, _⟩
    · cases hout
      cases hout'
      exact .values (Store.look_eq_of_access (fun _ a ↦ by cases a <;> rfl) _ _)
    · exact absurd hnull hsource
  · rcases hanswers' with ⟨hnull, _⟩ | ⟨_, o₀', hkept', rfl⟩
    · exact absurd hnull hsource
    · have halike := Pattern.endsAlike_of_perm (h.writes_apart expect) (h.writes_perm expect)
        hkept.left hkept'.left
      exact halike.letOut hout hout'

/-- Called with one source, the two synchronous mappers both end at once, and alike. -/
theorem exists_run_sync (h : b.Reorders b') {c c' : Surroundings}
    (hmakes : c.Makes b.target pattern) (hmakes' : c'.Makes b'.target pattern)
    (hcomputes : ∀ r ∈ b.rules, c.EndsIn (expect r.compute).promise.Left (r.obtainSync source))
    (hcomputes' : ∀ r ∈ b'.rules, c'.EndsIn (expect r.compute).promise.Left (r.obtainSync source))
    (hm : c.holds m) (hm' : c'.holds m') :
    ∃ m₁ o m₁' o', m.run ((Session.syncFunction b.snapshot).run [source]) = (m₁, .settled o) ∧
      m'.run ((Session.syncFunction b'.snapshot).run [source]) = (m₁', .settled o') ∧
      EndsAlike m₁ m₁' o o' := by
  by_cases hsource : source = .null
  · subst hsource
    exact ⟨m, _, m', _, rfl, rfl,
      .values (Store.look_eq_of_access (fun _ a ↦ by cases a <;> rfl) _ _)⟩
  · obtain ⟨m₁, o, hrun, hm₁, -, hleft, -⟩ :=
      h.registered.consistent.exists_run_transformSync h.field hsource hmakes hcomputes hm
    obtain ⟨m₁', o', hrun', hm₁', -, hleft', -⟩ :=
      h.registered'.consistent.exists_run_transformSync h.field' hsource hmakes' hcomputes' hm'
    refine ⟨m₁, o, m₁', o', hrun, hrun', ?_⟩
    exact Pattern.endsAlike_of_perm (h.writes_apart expect) (h.writes_perm expect)
      (hleft m₁ hm₁ (.refl _ _)) (hleft' m₁' hm₁' (.refl _ _))

end Alike

end Reorders

end Builder

namespace Mapper

/-- Two synchronous mappers, wherever each is called with a source that computes and targets depend
on alone, both end at once, in targets that look the same or in faults. A compute may also fail by
the fault by which an iteration stops. -/
def SyncAlike (mapper mapper' : Mapper) : Prop :=
  ∀ (c c' : Surroundings) (pattern : Pattern) (expect : Compute → Expectation) (source : Value),
    c.Makes mapper.target pattern → c'.Makes mapper'.target pattern →
    (∀ r ∈ mapper.rules, c.EndsIn (expect r.compute).promise.Left (r.obtainSync source)) →
    (∀ r ∈ mapper'.rules, c'.EndsIn (expect r.compute).promise.Left (r.obtainSync source)) →
    ∀ m m', c.holds m → c'.holds m' →
      ∃ m₁ o m₁' o', m.run ((Session.syncFunction mapper).run [source]) = (m₁, .settled o) ∧
        m'.run ((Session.syncFunction mapper').run [source]) = (m₁', .settled o') ∧
        EndsAlike m₁ m₁' o o'

/-- Two asynchronous mappers, wherever each is called with such a source, and whatever else is
called and cancelled meanwhile, can both come to an end, and they end in targets that look the same
or in faults. -/
def AsyncAlike (mapper mapper' : Mapper) : Prop :=
  ∀ (c c' : Commons) (pattern : Pattern) (expect : Compute → Expectation) (source : Value),
    c.ground.Makes mapper.target pattern → c'.ground.Makes mapper'.target pattern →
    (∀ r ∈ mapper.rules, c.Provides (expect r.compute).promise.Left (r.evaluate source)) →
    (∀ r ∈ mapper'.rules, c'.Provides (expect r.compute).promise.Left (r.evaluate source)) →
    ∀ m m' S S', c.Holds m → c'.Holds m' →
      Overlap.Run c ⟨m, []⟩ S → Overlap.Run c' ⟨m', []⟩ S' →
      ∀ x ∈ S.strands, ∀ x' ∈ S'.strands, x.Maps mapper source → x'.Maps mapper' source →
        x.cancelled = false → x'.cancelled = false →
        (∃ m₁ o, c.Course (S.machine, x.proc) (m₁, .settled o)) ∧
        (∃ m₁ o, c'.Course (S'.machine, x'.proc) (m₁, .settled o)) ∧
        ∀ o o', x.proc = .settled o → x'.proc = .settled o' →
          EndsAlike S.machine S'.machine o o'

end Mapper

namespace Builder

variable {b b' : Builder} {entries entries' : List (String × Compute)}

theorem Reorders.syncAlike (h : b.Reorders b') : b.snapshot.SyncAlike b'.snapshot := by
  intro c c' pattern expect source hmakes hmakes' hcomputes hcomputes' m m' hm hm'
  exact h.exists_run_sync hmakes hmakes' hcomputes hcomputes' hm hm'

theorem Reorders.asyncAlike (h : b.Reorders b') (hrules : b.rules ≠ []) (hrules' : b'.rules ≠ []) :
    b.snapshot.AsyncAlike b'.snapshot := by
  intro c c' pattern expect source hmakes hmakes' hcomputes hcomputes' m m' S S' hm hm' hrun hrun'
    x hx x' hx' hmaps hmaps' hkept hkept'
  obtain ⟨hcourse, hends⟩ := ((Overlap.orderly_bare hm).run hrun).answers h.registered hrules
    hmakes hcomputes hx hmaps hkept
  obtain ⟨hcourse', hends'⟩ := ((Overlap.orderly_bare hm').run hrun').answers h.registered' hrules'
    hmakes' hcomputes' hx' hmaps' hkept'
  refine ⟨hcourse, hcourse', fun o o' ho ho' ↦ ?_⟩
  obtain ⟨o₀, hanswers, hout⟩ := hends o ho
  obtain ⟨o₀', hanswers', hout'⟩ := hends' o' ho'
  exact h.endsAlike_of_answers hanswers hanswers' hout hout'

/-- The order in which fields are registered does not matter when they are all accepted, and it does
not matter for that: fields are all accepted exactly when each text names one and no two overlap.
The builders then claim the same keys, a mapper can be made of one when it can be made of the other,
and the mappers end alike. -/
theorem registration_order_is_immaterial (id id' : ℕ) (source target : String)
    {entries entries' : List (String × Compute)} (hperm : entries.Perm entries') :
    ((∃ b, (Builder.empty id source target).registerAll (fields entries) = .ok b) ↔
      FieldsApart entries) ∧
    ((∃ b, (Builder.empty id source target).registerAll (fields entries) = .ok b) ↔
      ∃ b', (Builder.empty id' source target).registerAll (fields entries') = .ok b') ∧
    ∀ b b', (Builder.empty id source target).registerAll (fields entries) = .ok b →
      (Builder.empty id' source target).registerAll (fields entries') = .ok b' →
      (∀ k, k ∈ b.keys ↔ k ∈ b'.keys) ∧
      (∀ kind, (∃ mapper, b.mapperOf kind = .ok mapper) ↔
        ∃ mapper, b'.mapperOf kind = .ok mapper) ∧
      (∀ mapper mapper', b.buildSync = .ok mapper → b'.buildSync = .ok mapper' →
        mapper.SyncAlike mapper') ∧
      ∀ mapper mapper', b.build = .ok mapper → b'.build = .ok mapper' →
        mapper.AsyncAlike mapper' := by
  have haccepted : ∀ (id : ℕ) (entries : List (String × Compute)),
      (∃ b, (Builder.empty id source target).registerAll (fields entries) = .ok b) ↔
        FieldsApart entries := fun id entries ↦
    (consistent_empty id source target).exists_registerAll_fields_iff.trans
      (and_iff_left fun _ _ ↦ nofun)
  refine ⟨haccepted id entries, ?_, fun b b' h h' ↦ ?_⟩
  · rw [haccepted, haccepted]
    exact ⟨fun h ↦ h.perm hperm, fun h ↦ h.perm hperm.symm⟩
  · have hreorders := reorders_of_perm hperm h h'
    refine ⟨fun k ↦ hreorders.keys_perm.mem_iff, fun kind ↦ ⟨?_, ?_⟩, ?_, ?_⟩
    · rintro ⟨mapper, hmapper⟩
      exact ⟨_, hreorders.mapperOf hmapper⟩
    · rintro ⟨mapper, hmapper⟩
      exact ⟨_, hreorders.symm.mapperOf hmapper⟩
    · intro mapper mapper' hmapper hmapper'
      obtain ⟨-, -, rfl⟩ := buildSync_eq_ok_iff.mp hmapper
      obtain ⟨-, -, rfl⟩ := buildSync_eq_ok_iff.mp hmapper'
      exact hreorders.syncAlike
    · intro mapper mapper' hmapper hmapper'
      obtain ⟨rfl, hrules⟩ := build_eq_ok hmapper
      obtain ⟨rfl, hrules'⟩ := build_eq_ok hmapper'
      exact hreorders.asyncAlike hrules hrules'

end Builder

namespace Sample

/-- A field and a field further down a path. -/
def nameAndPhone : List (String × Compute) :=
  [("name", .literal (.text "first")), (" target.contact.phone ", quick)]

def nameFirst : Builder :=
  ⟨0, "Customer", "Person",
    [⟨.field, ⟨⟨["name"]⟩, ⟨0, 0⟩⟩, .literal (.text "first")⟩,
      ⟨.field, ⟨⟨["contact", "phone"]⟩, ⟨0, 1⟩⟩, quick⟩],
    [("target.name", ⟨["name"]⟩), ("target.contact.phone", ⟨["contact", "phone"]⟩)]⟩

def phoneFirst : Builder :=
  ⟨1, "Customer", "Person",
    [⟨.field, ⟨⟨["contact", "phone"]⟩, ⟨1, 0⟩⟩, quick⟩,
      ⟨.field, ⟨⟨["name"]⟩, ⟨1, 1⟩⟩, .literal (.text "first")⟩],
    [("target.contact.phone", ⟨["contact", "phone"]⟩), ("target.name", ⟨["name"]⟩)]⟩

/-- The computes of both give the same text, on both paths. -/
theorem gives_first (r : Rule) (hr : r ∈ nameFirst.rules ++ phoneFirst.rules) (source : Value) :
    known.EndsIn (expect quickFace r.compute).promise.Left (r.obtainSync source) ∧
      apart.Provides (expect quickFace r.compute).promise.Left (r.evaluate source) := by
  have hapart : apart.EndsIn (Expectation.value (Store.empty.look (.text "first"))).promise.Kept
      (Prog.give (.text "first")) := Commons.endsIn_give fun m _ ↦
    Store.look_eq_of_access (fun s a ↦ by cases a <;> rfl) Store.empty m.store
  simp only [nameFirst, phoneFirst, List.cons_append, List.nil_append, List.mem_cons,
    List.not_mem_nil, or_false] at hr
  rcases hr with rfl | rfl | rfl | rfl <;>
    exact ⟨(endsIn_text "first").mono fun _ _ ↦ Promise.Kept.left, hapart.provides.left⟩

/-- In either order both fields are accepted, and from one source the mappers fill targets that look
the same. -/
theorem name_and_phone_in_either_order :
    nameAndPhone.Perm nameAndPhone.reverse ∧
      (Builder.empty 0 "Customer" "Person").registerAll (Builder.fields nameAndPhone) =
        .ok nameFirst ∧
      (Builder.empty 1 "Customer" "Person").registerAll (Builder.fields nameAndPhone.reverse) =
        .ok phoneFirst ∧
      (∀ k, k ∈ nameFirst.keys ↔ k ∈ phoneFirst.keys) ∧
      (∃ m₁ v m₁' v', machine.run ((Session.syncFunction nameFirst.snapshot).run [.int 1]) =
          (m₁, .settled (.ok v)) ∧
        machine.run ((Session.syncFunction phoneFirst.snapshot).run [.int 1]) =
          (m₁', .settled (.ok v')) ∧ m₁.store.look v = m₁'.store.look v') ∧
      ∃ m₁ o, apart.Course (machine, (Strand.made nameFirst.snapshot (.int 1)).proc)
        (m₁, .settled o) := by
  have hperm : nameAndPhone.Perm nameAndPhone.reverse := (List.reverse_perm _).symm
  have hname : (Builder.empty 0 "Customer" "Person").registerAll (Builder.fields nameAndPhone) =
      .ok nameFirst := rfl
  have hphone : (Builder.empty 1 "Customer" "Person").registerAll
      (Builder.fields nameAndPhone.reverse) = .ok phoneFirst := rfl
  have hmemName : ∀ r ∈ nameFirst.rules, r ∈ nameFirst.rules ++ phoneFirst.rules :=
    fun r ↦ List.mem_append_left _
  have hmemPhone : ∀ r ∈ phoneFirst.rules, r ∈ nameFirst.rules ++ phoneFirst.rules :=
    fun r ↦ List.mem_append_right _
  obtain ⟨hkeys, -, hsync, hasync⟩ := (Builder.registration_order_is_immaterial 0 1 "Customer"
    "Person" hperm).2.2 nameFirst phoneFirst hname hphone
  refine ⟨hperm, hname, hphone, hkeys, ?_, ?_⟩
  · obtain ⟨m₁, o, m₁', o', hrun, hrun', halike⟩ := hsync _ _ rfl rfl known known personPattern
      (expect quickFace) (.int 1) makes_person makes_person
      (fun r hr ↦ (gives_first r (hmemName r hr) _).1)
      (fun r hr ↦ (gives_first r (hmemPhone r hr) _).1) machine machine rfl rfl
    cases halike with
    | values hlook => exact ⟨m₁, _, m₁', _, hrun, hrun', hlook⟩
    | faults e e' =>
      have hvalue : (machine.run ((Session.syncFunction nameFirst.snapshot).run [.int 1])).2 =
        .settled (.ok (.record 1 "Person")) := rfl
      rw [hrun] at hvalue
      cases hvalue
  · have hname' := Builder.registered_of_registerAll_fields (.empty ..) hname
    have hphone' := Builder.registered_of_registerAll_fields (.empty ..) hphone
    have hcalled := fun r hr ↦ (gives_first r (hmemName r hr) (.int 1)).2
    have hcalled' := fun r hr ↦ (gives_first r (hmemPhone r hr) (.int 1)).2
    have hmakes : apart.ground.Makes "Person" personPattern := makes_person
    have hrun : Overlap.Run apart ⟨machine, []⟩ ⟨machine, [.made nameFirst.snapshot (.int 1)]⟩ :=
      .single (.call (S := ⟨machine, []⟩) ⟨_, (hname'.consistent.provides_answers
        (List.cons_ne_nil _ _) hmakes hcalled).asCoroutine.conducts⟩)
    have hrun' : Overlap.Run apart ⟨machine, []⟩ ⟨machine, [.made phoneFirst.snapshot (.int 1)]⟩ :=
      .single (.call (S := ⟨machine, []⟩) ⟨_, (hphone'.consistent.provides_answers
        (List.cons_ne_nil _ _) hmakes hcalled').asCoroutine.conducts⟩)
    exact (hasync _ _ rfl rfl apart apart personPattern (expect quickFace) (.int 1) hmakes hmakes
      hcalled hcalled' machine machine _ _ holds_machine holds_machine hrun hrun' _
      List.mem_cons_self _ List.mem_cons_self ⟨rfl, rfl⟩ ⟨rfl, rfl⟩ rfl rfl).1

end Sample

end Recast
