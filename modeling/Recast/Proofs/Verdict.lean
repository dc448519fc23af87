import Recast.Proofs.Usage

/-!
What becomes of a registration, when what is offered can be looked at and so could all before. It is
refused when the descriptor names no slot of the shape of its kind, whatever has been claimed, and
else when that slot overlaps the slot of an earlier rule, of which the earliest is blamed; in no
other case (`Usage.decides`). What is refused leaves the builder as it was and gives up an awaitable
that was to be the compute; what is accepted adds one rule, claims one key and leaves the awaitable
alone (`Usage.registration_is_all_or_nothing`).

An offer that cannot be looked at is never accepted, but its slot stays claimed when it could be
claimed (`Usage.Resists`): the same field is then refused to the next offer, as a duplicate of a
rule that does not exist (`Usage.strayUse_refuses_duplicate`).
-/

set_option autoImplicit false

namespace Recast

/-- The descriptor names a slot of the shape of the kind: the whole target, or something in it. -/
def Slot.Descriptor.Names (d : Slot.Descriptor) (kind : Slot.Kind) (s : Slot) : Prop :=
  Slot.parse d = .ok s ∧ (kind = .whole ↔ s.path = [])

theorem Slot.Descriptor.Names.eq {d : Slot.Descriptor} {kind : Slot.Kind} {s t : Slot}
    (hs : d.Names kind s) (ht : d.Names kind t) : s = t :=
  Except.ok.inj (hs.1.symm.trans ht.1)

/-! ### Claims -/

namespace Builder

variable {b : Builder} {kind : Slot.Kind} {d : Slot.Descriptor} {c : Compute} {s : Slot}

/-- A rule is the first whose slot overlaps a slot. -/
def IsClaimant (b : Builder) (s : Slot) (r : Rule) : Prop :=
  ∃ before after, b.rules = before ++ r :: after ∧
    (∀ q ∈ before, s.overlaps q.slot = false) ∧ s.overlaps r.slot = true

/-- A descriptor that names no slot of the shape of the kind is refused as such, whatever has been
claimed. -/
theorem exists_register_of_not_names (b : Builder) (c : Compute) (h : ∀ s, ¬ d.Names kind s) :
    ∃ e, b.register kind d c = .error (.shape e) := by
  cases hparse : Slot.parseAs kind d with
  | error e => exact ⟨e, by simp [register_eq, claim, hparse]⟩
  | ok s => exact absurd (Slot.parseAs_eq_ok_iff.mp hparse) (h s)

/-- When nothing overlaps the slot, the rule is added. -/
theorem register_of_names (hd : d.Names kind s) (hclaim : b.claimedBy? s = none) :
    b.register kind d c = .ok (b.push (b.newRule kind s c)) := by
  simp [register_eq, claim, Slot.parseAs_eq_ok_iff.mpr hd, hclaim]

theorem register_of_claimed {x : Slot} (hd : d.Names kind s) (hclaim : b.claimedBy? s = some x) :
    b.register kind d c = .error (.duplicate s x) := by
  simp [register_eq, claim, Slot.parseAs_eq_ok_iff.mpr hd, hclaim]

/-- Why the offer of a compute is refused is why its registration is, and the builder stays. -/
theorem offer_of_error {e : RegistrationError} (h : b.register kind d c = .error e) :
    b.offer kind d (.clear c) = (some e, b) := by
  rw [register_eq] at h
  rw [offer]
  cases hclaim : b.claim kind d with
  | error e' =>
    rw [hclaim] at h
    cases h
    rfl
  | ok s =>
    rw [hclaim] at h
    cases h

theorem offer_of_ok {b' : Builder} (h : b.register kind d c = .ok b') :
    b.offer kind d (.clear c) = (none, b') := by
  rw [register] at h
  rcases hoffer : b.offer kind d (.clear c) with ⟨_ | e, next⟩
  · rw [hoffer] at h
    cases h
    rfl
  · rw [hoffer] at h
    cases h

/-- An offer that cannot be looked at, for a slot that can be claimed, leaves the claim. -/
theorem offer_of_resisting {o : Offer} {f : Fault} (hclaim : b.claim kind d = .ok s)
    (ho : o.inspect = .error f) :
    b.offer kind d o = (some (.inspection f), b.claiming s) := by
  simp only [offer, hclaim, Rule.create, ho]
  rfl

namespace Consistent

/-- Slots are claimed in the order of the rules. -/
theorem claimedBy?_eq (hb : b.Consistent) (s : Slot) :
    b.claimedBy? s = (b.rules.find? fun r ↦ s.overlaps r.slot).map Rule.slot := by
  rw [claimedBy?, hb.map_snd_slots, List.find?_map]
  rfl

theorem claimedBy?_eq_none_iff (hb : b.Consistent) :
    b.claimedBy? s = none ↔ ∀ r ∈ b.rules, s.overlaps r.slot = false := by
  rw [hb.claimedBy?_eq, Option.map_eq_none_iff, List.find?_eq_none]
  simp only [Bool.not_eq_true]

/-- The slot that is blamed is that of the first rule that overlaps. -/
theorem claimedBy?_of_isClaimant (hb : b.Consistent) {r : Rule} (h : b.IsClaimant s r) :
    b.claimedBy? s = some r.slot := by
  obtain ⟨before, after, hrules, hbefore, hr⟩ := h
  have hfind : (b.rules.find? fun r ↦ s.overlaps r.slot) = some r := by
    rw [List.find?_eq_some_iff_append]
    exact ⟨hr, before, after, hrules, fun q hq ↦ by rw [hbefore q hq]; rfl⟩
  rw [hb.claimedBy?_eq, hfind, Option.map_some]

theorem exists_isClaimant {x : Slot} (hb : b.Consistent) (h : b.claimedBy? s = some x) :
    ∃ r, b.IsClaimant s r ∧ r.slot = x := by
  rw [hb.claimedBy?_eq, Option.map_eq_some_iff] at h
  obtain ⟨r, hfind, hr⟩ := h
  obtain ⟨hoverlaps, before, after, hrules, hbefore⟩ := List.find?_eq_some_iff_append.mp hfind
  exact ⟨r, ⟨before, after, hrules, fun q hq ↦ by simpa using hbefore q hq, hoverlaps⟩, hr⟩

/-- A slot that nothing overlaps has a key that nothing has claimed. -/
theorem key_notMem (hb : b.Consistent) (hs : s.IsValid)
    (hclear : ∀ r ∈ b.rules, s.overlaps r.slot = false) : s.key ∉ b.keys := by
  rw [hb.keys_eq]
  intro hmem
  obtain ⟨r, hr, hkey⟩ := List.mem_map.mp hmem
  have hslot : r.slot = s := Slot.eq_of_key_eq (hb.valid r hr) hs hkey
  have hfalse := hclear r hr
  rw [hslot, Slot.overlaps_self] at hfalse
  exact Bool.noConfusion hfalse

end Consistent

end Builder

/-! ### What a registration does -/

/-- The awaitable of a compute has been given up, if it is one: a coroutine is closed, an awaitable
of its own kind has been asked to close, and nothing else has happened, so nothing was begun. -/
structure Compute.GivenUp (c : Compute) (m m' : Machine) : Prop where
  rest : ∃ id, m' =
    { m with
      store := { m.store with
        nextId := id
        coroutines := m'.store.coroutines
        customs := m'.store.customs } }
  coroutine : ∀ i, c = .literal (.awaitable .coroutine i) →
    m'.store.coroutines = m.store.coroutines.modify i fun _ ↦ .closed
  custom : ∀ i, c = .literal (.awaitable .custom i) →
    m'.store.customs = m.store.customs.modify i fun x ↦ { x with closed := x.closed + 1 }
  coroutines : (∀ i, c ≠ .literal (.awaitable .coroutine i)) →
    m'.store.coroutines = m.store.coroutines
  customs : (∀ i, c ≠ .literal (.awaitable .custom i)) → m'.store.customs = m.store.customs

namespace Usage

variable {u : Usage} {kind : Slot.Kind} {d : Slot.Descriptor} {c : Compute} {s : Slot}

/-- What a registration answers: the builder to go on with, or a fault. -/
def answer (u : Usage) (kind : Slot.Kind) (d : Slot.Descriptor) (o : Offer) :
    Except Raised Builder :=
  (u.machine.act (u.builder.offerLogged kind d o)).1

/-- One rule was added and its key claimed; otherwise only a log record was written, so an awaitable
was neither begun nor closed. -/
structure Gains (u : Usage) (kind : Slot.Kind) (s : Slot) (c : Compute) (u' : Usage) : Prop where
  rules : ∃ r, u'.builder.rules = u.builder.rules ++ [r] ∧ r.kind = kind ∧ r.slot = s ∧
    r.compute = c
  slots : u'.builder.slots = u.builder.slots ++ [(s.key, s)]
  new_key : s.key ∉ u.builder.keys
  names : u'.builder.id = u.builder.id ∧ u'.builder.source = u.builder.source ∧
    u'.builder.target = u.builder.target
  transforms : u'.transforms = u.transforms
  machine : ∃ entry, u'.machine =
    { u.machine with store := { u.machine.store with log := u.machine.store.log ++ [entry] } }

/-- A registration that was refused has changed nothing, and has given up the awaitable. -/
structure Refuses (u : Usage) (c : Compute) (u' : Usage) : Prop where
  builder : u'.builder = u.builder
  transforms : u'.transforms = u.transforms
  givenUp : c.GivenUp u.machine u'.machine

/-- What decides about a registration, what it answers, and what has become of it. -/
structure Decides (u : Usage) (kind : Slot.Kind) (d : Slot.Descriptor) (c : Compute) : Prop where
  shape : (∃ e, u.answer kind d (.clear c) = .error e ∧
      e.fault.kind = "InvalidSlotShapeException") ↔ ∀ s, ¬ d.Names kind s
  duplicate : ∀ s, d.Names kind s →
    ((∃ e, u.answer kind d (.clear c) = .error e ∧ e.fault.kind = "DuplicateSlotException") ↔
      ∃ r ∈ u.builder.rules, s.overlaps r.slot = true)
  claimant : ∀ s r, d.Names kind s → u.builder.IsClaimant s r →
    ∃ id, u.answer kind d (.clear c) = .error ⟨id, Fault.duplicateSlot s.key r.key⟩
  accepted : ∀ s, d.Names kind s → (∀ r ∈ u.builder.rules, s.overlaps r.slot = false) →
    u.answer kind d (.clear c) = .ok (u.register kind d (.clear c)).builder ∧
      u.Gains kind s c (u.register kind d (.clear c))
  refused : ∀ e, u.answer kind d (.clear c) = .error e →
    u.Refuses c (u.register kind d (.clear c))

/-- What becomes of an offer that cannot be looked at. It is answered by what looking at it raises
once its slot has been claimed, and the claim stays; nothing else has changed. When no slot can be
claimed, the builder is as it was; the refusal is answered if the class at least can be read, and
else what reading it raises. -/
structure Resists (u : Usage) (kind : Slot.Kind) (d : Slot.Descriptor) (o : Offer) (f : Fault)
    (u' : Usage) : Prop where
  answer : ∀ s, d.Names kind s → (∀ r ∈ u.builder.rules, s.overlaps r.slot = false) →
    ∃ id, u.answer kind d o = .error ⟨id, f⟩
  claimed : ∀ s, d.Names kind s → (∀ r ∈ u.builder.rules, s.overlaps r.slot = false) →
    u'.builder.slots = u.builder.slots ++ [(s.key, s)] ∧ s.key ∉ u.builder.keys
  unclaimed : (∀ s, d.Names kind s → ∃ r ∈ u.builder.rules, s.overlaps r.slot = true) →
    u'.builder = u.builder
  masked : o.isAwaitable = .error f → ∃ id, u.answer kind d o = .error ⟨id, f⟩
  refused : o.isAwaitable = .ok false → ∀ c,
    (∀ s, d.Names kind s → ∃ r ∈ u.builder.rules, s.overlaps r.slot = true) →
      u.answer kind d o = u.answer kind d (.clear c)
  rules : u'.builder.rules = u.builder.rules
  transforms : u'.transforms = u.transforms
  machine : ∃ id, u'.machine =
    { u.machine with store := { u.machine.store with nextId := id } }

theorem givenUp_giveUp (c : Compute) (m : Machine) (id : ℕ) :
    c.GivenUp m (giveUp (.clear c) { m with store := { m.store with nextId := id } }) := by
  have hnothing : ∀ c' : Compute, (∀ i, c' ≠ .literal (.awaitable .coroutine i)) →
      (∀ i, c' ≠ .literal (.awaitable .custom i)) →
      c'.GivenUp m { m with store := { m.store with nextId := id } } :=
    fun c' hcoroutine hcustom ↦ ⟨⟨id, rfl⟩, fun i h ↦ absurd h (hcoroutine i),
      fun i h ↦ absurd h (hcustom i), fun _ ↦ rfl, fun _ ↦ rfl⟩
  cases c with
  | literal v =>
    cases v with
    | awaitable kind i =>
      cases kind with
      | coroutine =>
        refine ⟨⟨id, rfl⟩, ?_, nofun, fun h ↦ absurd rfl (h i), fun _ ↦ rfl⟩
        rintro j ⟨⟩
        rfl
      | custom =>
        refine ⟨⟨id, rfl⟩, nofun, ?_, fun _ ↦ rfl, fun h ↦ absurd rfl (h i)⟩
        rintro j ⟨⟩
        rfl
      | task | future => exact hnothing _ nofun nofun
    | _ => exact hnothing _ nofun nofun
  | _ => exact hnothing _ nofun nofun

/-- What is refused answers with its fault. -/
theorem answer_of_error {e : RegistrationError} (h : u.builder.register kind d c = .error e) :
    u.answer kind d (.clear c) = .error ⟨u.machine.store.nextId, e.toFault⟩ ∧
      u.Refuses c (u.register kind d (.clear c)) := by
  have hoffer := Builder.offer_of_error h
  have hact : u.machine.act (u.builder.offerLogged kind d (.clear c)) =
      (.error ⟨u.machine.store.nextId, e.toFault⟩,
        { u.machine with
          store := { u.machine.store with nextId := u.machine.store.nextId + 1 } }) := by
    simp [Machine.act, Builder.offerLogged, hoffer, Action.fail]
  refine ⟨by rw [answer, hact], ?_⟩
  rw [register, hact, Builder.left, hoffer]
  exact ⟨rfl, rfl, givenUp_giveUp c u.machine _⟩

/-- What is accepted answers with the builder that has the new rule. -/
theorem answer_of_ok (hb : u.builder.Consistent) (hd : d.Names kind s) (hs : s.IsValid)
    (hclear : ∀ r ∈ u.builder.rules, s.overlaps r.slot = false) :
    u.answer kind d (.clear c) = .ok (u.register kind d (.clear c)).builder ∧
      u.Gains kind s c (u.register kind d (.clear c)) := by
  have hregister : u.builder.register kind d c =
      .ok (u.builder.push (u.builder.newRule kind s c)) :=
    Builder.register_of_names hd (hb.claimedBy?_eq_none_iff.mpr hclear)
  have hoffer := Builder.offer_of_ok hregister
  have hlast : (u.builder.push (u.builder.newRule kind s c)).rules.getLast? =
      some (u.builder.newRule kind s c) := List.getLast?_concat
  have hact : u.machine.act (u.builder.offerLogged kind d (.clear c)) =
      (.ok (u.builder.push (u.builder.newRule kind s c)),
        { u.machine with
          store := { u.machine.store with
            log := u.machine.store.log ++ [Builder.registrationEntry
              (u.builder.push (u.builder.newRule kind s c)) (u.builder.newRule kind s c)] } }) := by
    simp [Machine.act, Builder.offerLogged, hoffer, hlast, Action.bind, Action.report,
      Action.change, Action.done]
  have hkey := hb.key_notMem hs hclear
  rw [answer, register, hact]
  exact ⟨rfl, ⟨_, rfl, rfl, rfl, rfl⟩, assign_of_notMem hkey s, hkey, ⟨rfl, rfl, rfl⟩, rfl, _, rfl⟩

/-- An offer that is not accepted is answered by the fault, and changes the machine no further. -/
theorem answer_of_offer {o : Offer} {e : RegistrationError} {b : Builder}
    (hoffer : u.builder.offer kind d o = (some e, b)) (ho : ∀ c, o ≠ .clear c) :
    u.answer kind d o = .error ⟨u.machine.store.nextId, e.toFault⟩ ∧
      u.register kind d o = { u with
        builder := b
        machine := { u.machine with
          store := { u.machine.store with nextId := u.machine.store.nextId + 1 } } } := by
  have hact : u.machine.act (u.builder.offerLogged kind d o) =
      (.error ⟨u.machine.store.nextId, e.toFault⟩,
        { u.machine with
          store := { u.machine.store with nextId := u.machine.store.nextId + 1 } }) := by
    simp [Machine.act, Builder.offerLogged, hoffer, Action.fail]
  refine ⟨by rw [answer, hact], ?_⟩
  rw [register, hact, Builder.left, hoffer]
  cases o with
  | clear c => exact absurd rfl (ho c)
  | masked | veiled => rfl

theorem ne_clear_of_inspect {o : Offer} {f : Fault} (ho : o.inspect = .error f) (c : Compute) :
    o ≠ .clear c := by
  rintro rfl
  cases ho

/-- An offer that cannot be looked at, whose slot is claimed. -/
theorem resists_of_claim (hb : u.builder.Consistent) (hd : d.IsValid) {o : Offer} {f : Fault}
    (ho : o.inspect = .error f) (hclaim : u.builder.claim kind d = .ok s) :
    u.Resists kind d o f (u.register kind d o) := by
  obtain ⟨hparse, hapart⟩ := Builder.claim_eq_ok hclaim
  have hs : d.Names kind s := Slot.parseAs_eq_ok_iff.mp hparse
  have hvalid : s.IsValid := Slot.isValid_of_parse hd hs.1
  obtain ⟨hanswer, hregister⟩ :=
    answer_of_offer (Builder.offer_of_resisting hclaim ho) (ne_clear_of_inspect ho)
  have hrules := hb.covered.overlaps_rule hapart
  have hclaimable : ¬ ∀ s, d.Names kind s → ∃ r ∈ u.builder.rules, s.overlaps r.slot = true := by
    intro h
    obtain ⟨r, hr, hoverlaps⟩ := h s hs
    rw [hrules r hr] at hoverlaps
    cases hoverlaps
  rw [hregister]
  refine ⟨fun _ _ _ ↦ ⟨_, hanswer⟩, fun t ht _ ↦ ?_, fun h ↦ absurd h hclaimable,
    fun _ ↦ ⟨_, hanswer⟩, fun _ _ h ↦ absurd h hclaimable, rfl, rfl, _, rfl⟩
  cases ht.eq hs
  exact ⟨hb.covered.slots_claiming hvalid hapart, hb.covered.key_notMem hvalid hapart⟩

/-- An offer that cannot be looked at, for which no slot can be claimed. -/
theorem resists_of_refused (hb : u.builder.Consistent) {o : Offer} {f : Fault}
    (ho : o.inspect = .error f) {e : RegistrationError}
    (hclaim : u.builder.claim kind d = .error e) :
    u.Resists kind d o f (u.register kind d o) := by
  have hoverlapping : ∀ s, d.Names kind s →
      ¬ ∀ r ∈ u.builder.rules, s.overlaps r.slot = false := by
    intro s hs hclear
    have hapart : ∀ x ∈ u.builder.slots.map Prod.snd, s.overlaps x = false := by
      rw [hb.map_snd_slots]
      exact List.forall_mem_map.mpr hclear
    have hok := Builder.claim_of_clear (Slot.parseAs_eq_ok_iff.mpr hs) hapart
    cases hclaim.symm.trans hok
  have hrefused : ∀ c, u.builder.register kind d c = .error e := fun c ↦ by
    rw [Builder.register_eq, hclaim]
  have hresisting := ne_clear_of_inspect ho
  cases o with
  | clear c => exact absurd rfl (hresisting c)
  | masked g =>
    cases ho
    have hoffer : u.builder.offer kind d (.masked f) = (some (.inspection f), u.builder) := by
      rw [Builder.offer, hclaim]
      rfl
    obtain ⟨hanswer, hregister⟩ := answer_of_offer hoffer hresisting
    rw [hregister]
    exact ⟨fun s hs h ↦ absurd h (hoverlapping s hs), fun s hs h ↦ absurd h (hoverlapping s hs),
      fun _ ↦ rfl, fun _ ↦ ⟨_, hanswer⟩, fun h ↦ (by cases h), rfl, rfl, _, rfl⟩
  | veiled g =>
    cases ho
    have hoffer : u.builder.offer kind d (.veiled f) = (some e, u.builder) := by
      rw [Builder.offer, hclaim]
      rfl
    obtain ⟨hanswer, hregister⟩ := answer_of_offer hoffer hresisting
    rw [hregister]
    exact ⟨fun s hs h ↦ absurd h (hoverlapping s hs), fun s hs h ↦ absurd h (hoverlapping s hs),
      fun _ ↦ rfl, fun h ↦ (by cases h),
      fun _ c _ ↦ hanswer.trans (answer_of_error (hrefused c)).1.symm, rfl, rfl, _, rfl⟩

theorem resists (hb : u.builder.Consistent) (hd : d.IsValid) {o : Offer} {f : Fault}
    (ho : o.inspect = .error f) : u.Resists kind d o f (u.register kind d o) := by
  cases hclaim : u.builder.claim kind d with
  | ok s => exact resists_of_claim hb hd ho hclaim
  | error e => exact resists_of_refused hb ho hclaim

/-- A registration with a builder that fits together. -/
theorem decides (hb : u.builder.Consistent) (hd : d.IsValid) : u.Decides kind d c := by
  have hshape : (∀ s, ¬ d.Names kind s) → ∃ id e, u.answer kind d (.clear c) =
      .error ⟨id, Fault.ofShapeError e⟩ := by
    intro h
    obtain ⟨e, he⟩ := u.builder.exists_register_of_not_names c h
    exact ⟨_, e, (answer_of_error he).1⟩
  have hclaimed : ∀ s r, d.Names kind s → u.builder.IsClaimant s r →
      ∃ id, u.answer kind d (.clear c) = .error ⟨id, Fault.duplicateSlot s.key r.key⟩ :=
    fun s r hs hr ↦
    ⟨_, (answer_of_error (Builder.register_of_claimed hs (hb.claimedBy?_of_isClaimant hr))).1⟩
  have hclear : ∀ s, d.Names kind s → (∀ r ∈ u.builder.rules, s.overlaps r.slot = false) →
      u.answer kind d (.clear c) = .ok (u.register kind d (.clear c)).builder ∧
        u.Gains kind s c (u.register kind d (.clear c)) := fun s hs hclear ↦
    answer_of_ok hb hs (Slot.isValid_of_parse hd hs.1) hclear
  have hcases : ∀ s, d.Names kind s → (∀ r ∈ u.builder.rules, s.overlaps r.slot = false) ∨
      ∃ r, u.builder.IsClaimant s r := by
    intro s hs
    cases hclaim : u.builder.claimedBy? s with
    | none => exact Or.inl (hb.claimedBy?_eq_none_iff.mp hclaim)
    | some x =>
      obtain ⟨r, hr, _⟩ := hb.exists_isClaimant hclaim
      exact Or.inr ⟨r, hr⟩
  constructor
  · constructor
    · rintro ⟨e, he, hkind⟩ s hs
      rcases hcases s hs with hnone | ⟨r, hr⟩
      · cases he.symm.trans (hclear s hs hnone).1
      · obtain ⟨id, hanswer⟩ := hclaimed s r hs hr
        cases he.symm.trans hanswer
        exact absurd hkind (show "DuplicateSlotException" ≠ "InvalidSlotShapeException" by decide)
    · intro h
      obtain ⟨id, e, hanswer⟩ := hshape h
      exact ⟨_, hanswer, by cases e <;> rfl⟩
  · intro s hs
    constructor
    · rintro ⟨e, he, _⟩
      rcases hcases s hs with hnone | ⟨r, before, after, hrules, _, hr⟩
      · cases he.symm.trans (hclear s hs hnone).1
      · exact ⟨r, by simp [hrules], hr⟩
    · rintro ⟨r, hr, hoverlaps⟩
      rcases hcases s hs with hnone | ⟨q, hq⟩
      · exact absurd (hnone r hr) (by simp [hoverlaps])
      · obtain ⟨id, hanswer⟩ := hclaimed s q hs hq
        exact ⟨_, hanswer, rfl⟩
  · exact hclaimed
  · exact hclear
  · intro e he
    cases hregister : u.builder.register kind d c with
    | error e' => exact (answer_of_error hregister).2
    | ok b =>
      obtain ⟨s, hs, hapart, _⟩ := Builder.register_eq_ok hregister
      have hs := Slot.parseAs_eq_ok_iff.mp hs
      rw [hb.map_snd_slots] at hapart
      have hnone : ∀ r ∈ u.builder.rules, s.overlaps r.slot = false :=
        fun r hr ↦ hapart r.slot (List.mem_map_of_mem hr)
      cases he.symm.trans (hclear s hs hnone).1

/-- However a new builder was used before, when all that was offered could be looked at, a
registration of a compute that can be looked at is decided by the shape of its descriptor and then
by overlap with the rules so far; it is refused without a trace, but for the awaitable that is given
up, or adds just its own rule. An offer that cannot be looked at adds no rule, and leaves its slot
claimed if this can be. -/
theorem registration_is_all_or_nothing (id : ℕ) (source target : String) (m : Machine)
    (ops : List Operation) (hops : ∀ op ∈ ops, op.IsValid) (hclear : ∀ op ∈ ops, op.IsClear)
    (kind : Slot.Kind) (d : Slot.Descriptor) (hd : d.IsValid) :
    (∀ c, (ops.foldl step (start id source target m)).Decides kind d c) ∧
      ∀ o f, o.inspect = .error f →
        (ops.foldl step (start id source target m)).Resists kind d o f
          ((ops.foldl step (start id source target m)).register kind d o) := by
  have hb := consistent_foldl ops hops hclear (u := start id source target m)
    (Builder.consistent_empty id source target)
  exact ⟨fun _ ↦ decides hb hd, fun _ _ ho ↦ resists hb hd ho⟩

/-- Two rules are registered, a third overlaps the second, and two more have the wrong shape. -/
def busyUse : List Operation :=
  [.register .field (.text "id") (.clear (.literal (.int 1))),
    .register .field (.text " target.contact.phone ") (.clear .stream),
    .register .field (.slot ⟨["contact"]⟩) (.clear (.literal .null)),
    .register .field (.text "target") (.clear (.literal .null)),
    .build true,
    .register .whole (.other "7") (.clear (.literal .null))]

/-- A coroutine is refused for the part of the target that the second rule claimed. -/
theorem busyUse_decides :
    (∀ op ∈ busyUse, op.IsValid) ∧ (∀ op ∈ busyUse, op.IsClear) ∧
      (Slot.Descriptor.text "contact").IsValid ∧
      (busyUse.foldl step (start 0 "Source" "Target" Machine.empty)).builder.keys =
        ["target.id", "target.contact.phone"] ∧
      (busyUse.foldl step (start 0 "Source" "Target" Machine.empty)).Decides .field
        (.text "contact") (.literal (.awaitable .coroutine 0)) := by
  have hops : ∀ op ∈ busyUse, op.IsValid := by
    simp [busyUse, Operation.IsValid, Slot.Descriptor.IsValid]
    decide
  have hclear : ∀ op ∈ busyUse, op.IsClear := by simp [busyUse, Operation.IsClear]
  exact ⟨hops, hclear, trivial, by decide +kernel, (registration_is_all_or_nothing 0 "Source"
    "Target" Machine.empty busyUse hops hclear .field (.text "contact") trivial).1 _⟩

/-- The field of an object that could not be looked at is refused to the next compute, as a
duplicate of itself, though there is no rule. -/
theorem strayUse_refuses_duplicate :
    (∀ op ∈ strayUse, op.IsValid) ∧ (Slot.Descriptor.text "x").Names .field ⟨["x"]⟩ ∧
      (strayUse.foldl step (start 0 "Source" "Target" Machine.empty)).builder.rules.length = 0 ∧
      (strayUse.foldl step (start 0 "Source" "Target" Machine.empty)).builder.register .field
        (.text "x") (.literal (.int 1)) = .error (.duplicate ⟨["x"]⟩ ⟨["x"]⟩) := by
  have hnames : (Slot.Descriptor.text "x").Names .field ⟨["x"]⟩ :=
    ⟨by decide +kernel, by decide⟩
  refine ⟨by simp [strayUse, Operation.IsValid, Slot.Descriptor.IsValid], hnames,
    by decide +kernel, Builder.register_of_claimed hnames ?_⟩
  decide +kernel

end Usage

end Recast
