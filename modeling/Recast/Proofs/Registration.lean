import Recast.Mapping.Builder
import Recast.Proofs.Path

/-!
What registering keeps true of a builder. No two of its rules overlap, and each has the kind of its
slot (`Builder.Sound`). It follows that the keys of the rules are distinct
(`Builder.Sound.keys_nodup`), and that a rule for the whole target is alone
(`Builder.Sound.all_field_or_alone`), so that the kind of the first rule decides what a mapper
gives. While every offer can be looked at, the two containers, the rules in order and the claimed
slots by key, describe the same slots (`Builder.Consistent`): a builder without rules has this
property, and an accepted registration keeps it (`Builder.Consistent.register`). An offer that
cannot be looked at leaves a claimed slot without a rule, so in general the rules are only among
what is claimed (`Builder.Covered`). As to the rules, such a builder is still like one that accepted
registrations lead to (`Builder.Covered.exists_registered`), and its mappers are the same.
`Builder.FitsTogether` spells out what holds of a consistent builder.
-/

set_option autoImplicit false

namespace Recast

/-- The slot of a rule. -/
def Rule.slot (r : Rule) : Slot := r.binder.slot

/-- Setting an entry under a new name adds it at the end. -/
theorem assign_of_notMem {α : Type} {entries : List (String × α)} {name : String}
    (h : name ∉ entries.map Prod.fst) (v : α) : assign entries name v = entries ++ [(name, v)] := by
  unfold assign
  rw [if_neg]
  intro hany
  obtain ⟨entry, hmem, heq⟩ := List.any_eq_true.mp hany
  exact h (List.mem_map.mpr ⟨entry, hmem, beq_iff_eq.mp heq⟩)

/-- A mapper of field rules gives the target that was filled. -/
theorem Mapper.result_of_field {mapper : Mapper} (hfield : ∀ r ∈ mapper.rules, r.kind = .field)
    (target : Value) (results : List Value) : mapper.result target results = target := by
  have hnot : mapper.isWhole = false := by
    unfold isWhole
    cases hrules : mapper.rules with
    | nil => rfl
    | cons r rest =>
      have hkind := hfield r (hrules ▸ List.mem_cons_self)
      simp [hkind]
  rw [result, hnot]
  rfl

namespace Builder

/-- The rules of a builder go together. -/
structure Sound (b : Builder) : Prop where
  valid : ∀ r ∈ b.rules, r.slot.IsValid
  apart : b.rules.Pairwise fun r s ↦ r.slot.overlaps s.slot = false
  kind : ∀ r ∈ b.rules, r.kind = .whole ↔ r.slot.path = []

/-- The rules and the claimed slots of a builder fit together. -/
structure Consistent (b : Builder) : Prop extends b.Sound where
  claimed : b.slots = b.rules.map fun r ↦ (r.key, r.slot)

/-- A builder that accepted registrations lead to, each with a valid descriptor. -/
inductive Registered : Builder → Prop
  | empty (id : ℕ) (source target : String) : Registered (Builder.empty id source target)
  | register {b b' : Builder} {kind : Slot.Kind} {d : Slot.Descriptor} {c : Compute}
      (hb : Registered b) (hd : d.IsValid) (h : b.register kind d c = .ok b') : Registered b'

theorem consistent_empty (id : ℕ) (source target : String) :
    (Builder.empty id source target).Consistent where
  valid := nofun
  apart := .nil
  kind := nofun
  claimed := rfl

/-- A compute that can be looked at is registered when its slot can be claimed. -/
theorem register_eq (b : Builder) (kind : Slot.Kind) (d : Slot.Descriptor) (c : Compute) :
    b.register kind d c =
      match b.claim kind d with
      | .error e => .error e
      | .ok s => .ok (b.push (b.newRule kind s c)) := by
  unfold register offer
  cases b.claim kind d <;> rfl

/-- What follows an offer: a new rule, nothing, or a claimed slot without a rule. -/
theorem left_cases (b : Builder) (kind : Slot.Kind) (d : Slot.Descriptor) (o : Offer) :
    (∃ c, o = .clear c ∧ b.register kind d c = .ok (b.left kind d o)) ∨ b.left kind d o = b ∨
      ∃ s, b.claim kind d = .ok s ∧ (∀ c, o ≠ .clear c) ∧ b.left kind d o = b.claiming s := by
  rw [left, offer]
  cases hclaim : b.claim kind d with
  | error e =>
    refine Or.inr (Or.inl ?_)
    dsimp only
    cases o.isAwaitable <;> rfl
  | ok s =>
    cases o with
    | clear c => exact Or.inl ⟨c, rfl, by rw [register_eq, hclaim]; rfl⟩
    | masked f | veiled f => exact Or.inr (Or.inr ⟨s, rfl, nofun, rfl⟩)

/-- A slot that can be claimed has the right shape and overlaps no claimed slot. -/
theorem claim_eq_ok {b : Builder} {kind : Slot.Kind} {d : Slot.Descriptor} {s : Slot}
    (h : b.claim kind d = .ok s) :
    Slot.parseAs kind d = .ok s ∧ ∀ x ∈ b.slots.map Prod.snd, s.overlaps x = false := by
  rw [claim] at h
  cases hparse : Slot.parseAs kind d with
  | error e => simp [hparse] at h
  | ok t =>
    cases hclaim : b.claimedBy? t with
    | some x => simp [hparse, hclaim] at h
    | none =>
      obtain rfl : t = s := by simpa [hparse, hclaim] using h
      refine ⟨rfl, fun x hx ↦ ?_⟩
      simpa using List.find?_eq_none.mp hclaim x hx

/-- A slot of the right shape that overlaps no claimed slot can be claimed. -/
theorem claim_of_clear {b : Builder} {kind : Slot.Kind} {d : Slot.Descriptor} {s : Slot}
    (hparse : Slot.parseAs kind d = .ok s)
    (hclear : ∀ x ∈ b.slots.map Prod.snd, s.overlaps x = false) : b.claim kind d = .ok s := by
  have hnone : b.claimedBy? s = none :=
    List.find?_eq_none.mpr fun x hx ↦ by simp [hclear x hx]
  simp only [claim, hparse, hnone]

/-- An accepted registration adds one rule, for a slot of the right shape that overlaps no claimed
slot. -/
theorem register_eq_ok {b b' : Builder} {kind : Slot.Kind} {d : Slot.Descriptor} {c : Compute}
    (h : b.register kind d c = .ok b') :
    ∃ s, Slot.parseAs kind d = .ok s ∧ (∀ x ∈ b.slots.map Prod.snd, s.overlaps x = false) ∧
      b' = b.push (b.newRule kind s c) := by
  rw [register_eq] at h
  cases hclaim : b.claim kind d with
  | error e => simp [hclaim] at h
  | ok s =>
    obtain ⟨hparse, hclear⟩ := claim_eq_ok hclaim
    rw [hclaim] at h
    cases h
    exact ⟨s, hparse, hclear, rfl⟩

/-- A slot of the right shape that overlaps no claimed slot is accepted. -/
theorem register_of_clear {b : Builder} {kind : Slot.Kind} {d : Slot.Descriptor} {s : Slot}
    (hparse : Slot.parseAs kind d = .ok s)
    (hclear : ∀ x ∈ b.slots.map Prod.snd, s.overlaps x = false) (c : Compute) :
    b.register kind d c = .ok (b.push (b.newRule kind s c)) := by
  rw [register_eq, claim_of_clear hparse hclear]

namespace Sound

variable {b : Builder}

/-- The slot of a field rule is not the whole target. -/
theorem path_ne_nil (hb : b.Sound) {r : Rule} (hr : r ∈ b.rules) (hfield : r.kind = .field) :
    r.slot.path ≠ [] := by
  intro hpath
  have hwhole := (hb.kind r hr).mpr hpath
  rw [hfield] at hwhole
  cases hwhole

/-- Two different rules of the list do not overlap, in either order. -/
theorem overlaps_eq_false (hb : b.Sound) {i j : ℕ} (hi : i < b.rules.length)
    (hj : j < b.rules.length) (hne : i ≠ j) :
    (b.rules[i]).slot.overlaps (b.rules[j]).slot = false := by
  rcases Nat.lt_or_gt_of_ne hne with hlt | hlt
  · exact List.pairwise_iff_getElem.mp hb.apart i j hi hj hlt
  · rw [Slot.overlaps_comm]
    exact List.pairwise_iff_getElem.mp hb.apart j i hj hi hlt

/-- Slots that do not overlap have different keys, so no key is claimed twice. -/
theorem keys_nodup (hb : b.Sound) : (b.rules.map Rule.key).Nodup := by
  rw [List.Nodup, List.pairwise_map]
  refine hb.apart.imp_of_mem ?_
  intro r s hr hs hrs hkey
  have hslot : r.slot = s.slot := Slot.eq_of_key_eq (hb.valid r hr) (hb.valid s hs) hkey
  rw [hslot, Slot.overlaps_self] at hrs
  exact Bool.noConfusion hrs

/-- All rules are for fields, or there is one rule and it is for the whole target: the empty path
overlaps every other. -/
theorem all_field_or_alone (hb : b.Sound) :
    (∀ r ∈ b.rules, r.kind = .field) ∨ ∃ r, b.rules = [r] ∧ r.kind = .whole := by
  by_cases hwhole : ∃ r ∈ b.rules, r.kind = .whole
  · obtain ⟨r, hr, hkind⟩ := hwhole
    obtain ⟨i, hi, hget⟩ := List.getElem_of_mem hr
    have hpath : r.slot.path = [] := (hb.kind r hr).mp hkind
    have honly : ∀ j < b.rules.length, j = i := by
      intro j hj
      by_contra hne
      have hfalse := hb.overlaps_eq_false hi hj (Ne.symm hne)
      rw [hget, Slot.overlaps_of_path_eq_nil hpath] at hfalse
      exact Bool.noConfusion hfalse
    have hlength : b.rules.length = 1 := by
      have hzero := honly 0 (by omega)
      by_contra hne
      have hone := honly 1 (by omega)
      omega
    obtain ⟨only, honlyRule⟩ := List.length_eq_one_iff.mp hlength
    refine Or.inr ⟨only, honlyRule, ?_⟩
    rw [honlyRule] at hr
    rw [← List.mem_singleton.mp hr]
    exact hkind
  · refine Or.inl ?_
    intro r hr
    cases hkind : r.kind with
    | field => rfl
    | whole => exact absurd ⟨r, hr, hkind⟩ hwhole

/-- A mapper with a rule for the whole target gives the value of this rule. -/
theorem result_of_whole (hb : b.Sound) (target : Value) {results : List Value}
    (hlength : results.length = b.rules.length) {entry : Rule × Value}
    (hentry : entry ∈ b.rules.zip results) (hkind : entry.1.kind = .whole) :
    b.snapshot.result target results = entry.2 := by
  rcases hb.all_field_or_alone with hfield | ⟨only, honly, hwhole⟩
  · rw [hfield entry.1 (List.of_mem_zip hentry).1] at hkind
    cases hkind
  · obtain ⟨v, hv⟩ : ∃ v, results = [v] := by
      rw [honly] at hlength
      exact List.length_eq_one_iff.mp hlength
    rw [honly, hv] at hentry
    rw [List.mem_singleton.mp hentry]
    simp [Mapper.result, Mapper.isWhole, snapshot, honly, hwhole, hv]

/-- A rule for a slot that overlaps none so far can be added. -/
theorem push (hb : b.Sound) {kind : Slot.Kind} {s : Slot} (c : Compute) (hs : s.IsValid)
    (hkind : kind = .whole ↔ s.path = []) (hclear : ∀ r ∈ b.rules, s.overlaps r.slot = false) :
    (b.push (b.newRule kind s c)).Sound := by
  constructor
  · intro r hr
    rcases List.mem_append.mp hr with hold | hlast
    · exact hb.valid r hold
    · rw [List.mem_singleton.mp hlast]
      exact hs
  · refine List.pairwise_append.mpr ⟨hb.apart, List.pairwise_singleton _ _, ?_⟩
    intro r hr t ht
    rw [List.mem_singleton.mp ht, Slot.overlaps_comm]
    exact hclear r hr
  · intro r hr
    rcases List.mem_append.mp hr with hold | hlast
    · exact hb.kind r hold
    · rw [List.mem_singleton.mp hlast]
      exact hkind

end Sound

/-- The rules of a builder go together, and their slots are among those that it has claimed, each
under its own key, no two of which overlap. -/
structure Covered (b : Builder) : Prop extends b.Sound where
  keyed : ∀ entry ∈ b.slots, entry.1 = entry.2.key ∧ entry.2.IsValid
  clear : b.slots.Pairwise fun x y ↦ x.2.overlaps y.2 = false
  covered : (b.rules.map fun r ↦ (r.key, r.slot)).Sublist b.slots

namespace Covered

variable {b : Builder} {s : Slot}

/-- A slot that overlaps no claimed one has a key that is not claimed. -/
theorem key_notMem (hb : b.Covered) (hs : s.IsValid)
    (hclear : ∀ x ∈ b.slots.map Prod.snd, s.overlaps x = false) :
    s.key ∉ b.slots.map Prod.fst := by
  intro hmem
  obtain ⟨entry, hentry, hkey⟩ := List.mem_map.mp hmem
  obtain ⟨hname, hvalid⟩ := hb.keyed entry hentry
  have hslot : entry.2 = s := Slot.eq_of_key_eq hvalid hs (hname ▸ hkey)
  have hfalse := hclear entry.2 (List.mem_map_of_mem hentry)
  rw [hslot, Slot.overlaps_self] at hfalse
  exact Bool.noConfusion hfalse

/-- No key is claimed twice. -/
theorem claimed_nodup (hb : b.Covered) : b.keys.Nodup := by
  rw [keys, List.Nodup, List.pairwise_map]
  refine hb.clear.imp_of_mem ?_
  intro x y hx hy hxy hkey
  obtain ⟨hxname, hxvalid⟩ := hb.keyed x hx
  obtain ⟨hyname, hyvalid⟩ := hb.keyed y hy
  have hslot : x.2 = y.2 := Slot.eq_of_key_eq hxvalid hyvalid (hxname ▸ hyname ▸ hkey)
  rw [hslot, Slot.overlaps_self] at hxy
  exact Bool.noConfusion hxy

/-- The keys of the rules are claimed. -/
theorem keys_sublist (hb : b.Covered) : (b.rules.map Rule.key).Sublist b.keys := by
  have hkeys : b.rules.map Rule.key =
      (b.rules.map fun r ↦ (r.key, r.slot)).map Prod.fst := by
    rw [List.map_map]
    rfl
  rw [hkeys]
  exact hb.covered.map Prod.fst

theorem overlaps_rule (hb : b.Covered) (hclear : ∀ x ∈ b.slots.map Prod.snd, s.overlaps x = false) :
    ∀ r ∈ b.rules, s.overlaps r.slot = false := by
  intro r hr
  have hentry := hb.covered.subset (List.mem_map_of_mem (f := fun r : Rule ↦ (r.key, r.slot)) hr)
  exact hclear r.slot (List.mem_map_of_mem (f := Prod.snd) hentry)

/-- A slot that overlaps no claimed one is claimed after the others. -/
theorem slots_claiming (hb : b.Covered) (hs : s.IsValid)
    (hclear : ∀ x ∈ b.slots.map Prod.snd, s.overlaps x = false) :
    (b.claiming s).slots = b.slots ++ [(s.key, s)] :=
  assign_of_notMem (hb.key_notMem hs hclear) s

/-- Such a slot can be claimed, whether or not there is to be a rule for it. -/
theorem claiming (hb : b.Covered) (hs : s.IsValid)
    (hclear : ∀ x ∈ b.slots.map Prod.snd, s.overlaps x = false) : (b.claiming s).Covered := by
  have hslots := hb.slots_claiming hs hclear
  refine ⟨⟨hb.valid, hb.apart, hb.kind⟩, ?_, ?_, ?_⟩
  · rw [hslots]
    intro entry hentry
    rcases List.mem_append.mp hentry with hold | hlast
    · exact hb.keyed entry hold
    · rw [List.mem_singleton.mp hlast]
      exact ⟨rfl, hs⟩
  · rw [hslots]
    refine List.pairwise_append.mpr ⟨hb.clear, List.pairwise_singleton _ _, ?_⟩
    intro x hx y hy
    rw [List.mem_singleton.mp hy, Slot.overlaps_comm]
    exact hclear x.2 (List.mem_map_of_mem hx)
  · rw [hslots]
    exact hb.covered.trans (List.sublist_append_left _ _)

/-- A registration that is accepted keeps the rules among what is claimed. -/
theorem register (hb : b.Covered) {b' : Builder} {kind : Slot.Kind} {d : Slot.Descriptor}
    {c : Compute} (hd : d.IsValid) (h : b.register kind d c = .ok b') : b'.Covered := by
  obtain ⟨s, hparse, hclear, rfl⟩ := register_eq_ok h
  obtain ⟨hnames, hkind⟩ := Slot.parseAs_eq_ok_iff.mp hparse
  have hs : s.IsValid := Slot.isValid_of_parse hd hnames
  have hclaimed := hb.claiming hs hclear
  refine ⟨hb.push c hs hkind (hb.overlaps_rule hclear), hclaimed.keyed, hclaimed.clear, ?_⟩
  change ((b.rules ++ [b.newRule kind s c]).map fun r ↦ (r.key, r.slot)).Sublist
    (b.claiming s).slots
  rw [hb.slots_claiming hs hclear, List.map_append]
  exact hb.covered.append (List.Sublist.refl _)

/-- Whatever is offered, the rules stay among what is claimed. -/
theorem left (hb : b.Covered) (kind : Slot.Kind) {d : Slot.Descriptor} (hd : d.IsValid)
    (o : Offer) : (b.left kind d o).Covered := by
  rcases b.left_cases kind d o with ⟨c, _, hregister⟩ | hsame | ⟨s, hclaim, _, hstray⟩
  · exact hb.register hd hregister
  · exact hsame.symm ▸ hb
  · obtain ⟨hparse, hclear⟩ := claim_eq_ok hclaim
    obtain ⟨hnames, -⟩ := Slot.parseAs_eq_ok_iff.mp hparse
    exact hstray.symm ▸ hb.claiming (Slot.isValid_of_parse hd hnames) hclear

end Covered

namespace Consistent

variable {b : Builder}

theorem keys_eq (hb : b.Consistent) : b.keys = b.rules.map Rule.key := by
  rw [keys, hb.claimed, List.map_map]
  rfl

theorem map_snd_slots (hb : b.Consistent) : b.slots.map Prod.snd = b.rules.map Rule.slot := by
  rw [hb.claimed, List.map_map]
  rfl

/-- What is claimed are just the rules. -/
theorem covered (hb : b.Consistent) : b.Covered := by
  refine ⟨hb.toSound, ?_, ?_, hb.claimed ▸ List.Sublist.refl _⟩
  · rw [hb.claimed]
    exact List.forall_mem_map.mpr fun r hr ↦ ⟨rfl, hb.valid r hr⟩
  · rw [hb.claimed, List.pairwise_map]
    exact hb.apart

/-- A registration that is accepted keeps the containers fitting together. -/
theorem register (hb : b.Consistent) {b' : Builder} {kind : Slot.Kind} {d : Slot.Descriptor}
    {c : Compute} (hd : d.IsValid) (h : b.register kind d c = .ok b') : b'.Consistent := by
  refine ⟨(hb.covered.register hd h).toSound, ?_⟩
  obtain ⟨s, hparse, hclear, rfl⟩ := register_eq_ok h
  have hs : s.IsValid := Slot.isValid_of_parse hd (Slot.parseAs_eq_ok_iff.mp hparse).1
  change (b.claiming s).slots = (b.rules ++ [b.newRule kind s c]).map _
  rw [hb.covered.slots_claiming hs hclear, hb.claimed, List.map_append]
  rfl

end Consistent

/-- Register rules in order, up to the first that is refused. -/
def registerAll (b : Builder) :
    List (Slot.Kind × Slot.Descriptor × Compute) → Except RegistrationError Builder
  | [] => .ok b
  | (kind, d, c) :: rest =>
    match b.register kind d c with
    | .error e => .error e
    | .ok b' => b'.registerAll rest

theorem Registered.registerAll {b b' : Builder} (hb : b.Registered)
    {entries : List (Slot.Kind × Slot.Descriptor × Compute)}
    (hvalid : ∀ entry ∈ entries, entry.2.1.IsValid) (h : b.registerAll entries = .ok b') :
    b'.Registered := by
  induction entries generalizing b with
  | nil =>
    cases h
    exact hb
  | cons entry rest ih =>
    obtain ⟨kind, d, c⟩ := entry
    obtain ⟨hd, hrest⟩ := List.forall_mem_cons.mp hvalid
    rw [Builder.registerAll] at h
    cases hregister : b.register kind d c with
    | error e =>
      rw [hregister] at h
      cases h
    | ok next =>
      rw [hregister] at h
      exact ih (hb.register hd hregister) hrest h

/-- The rules of a builder go together: no slots overlap, the keys are distinct and claimed, each
rule has the kind of its slot, all rules are for fields or a single one is for the whole target, and
a mapper gives the right result whatever the values. -/
structure Fits (b : Builder) : Prop where
  apart : b.rules.Pairwise fun r s ↦ r.slot.overlaps s.slot = false
  keys_nodup : (b.rules.map Rule.key).Nodup
  claimed_nodup : b.keys.Nodup
  keys_sublist : (b.rules.map Rule.key).Sublist b.keys
  size_eq : b.size = b.rules.length
  field_iff : ∀ r ∈ b.rules, r.kind = .field ↔ r.slot.path ≠ []
  whole_iff : ∀ r ∈ b.rules, r.kind = .whole ↔ r.slot.path = []
  all_field_or_alone : (∀ r ∈ b.rules, r.kind = .field) ∨ ∃ r, b.rules = [r] ∧ r.kind = .whole
  result_field : (∀ r ∈ b.rules, r.kind = .field) → ∀ target results,
    b.snapshot.result target results = target
  result_whole : ∀ target results, results.length = b.rules.length →
    ∀ entry ∈ b.rules.zip results, entry.1.kind = .whole →
      b.snapshot.result target results = entry.2

/-- The rules, the claimed slots and the count of a builder agree: the rules go together, and the
claimed keys are theirs. -/
structure FitsTogether (b : Builder) : Prop extends b.Fits where
  keys_eq : b.keys = b.rules.map Rule.key
  length_slots : b.slots.length = b.rules.length

theorem Covered.fits {b : Builder} (hb : b.Covered) : b.Fits where
  apart := hb.apart
  keys_nodup := hb.keys_nodup
  claimed_nodup := hb.claimed_nodup
  keys_sublist := hb.keys_sublist
  size_eq := rfl
  field_iff := by
    intro r hr
    rw [Ne, ← hb.kind r hr]
    cases r.kind <;> simp
  whole_iff := hb.kind
  all_field_or_alone := hb.all_field_or_alone
  result_field hfield target results := Mapper.result_of_field hfield target results
  result_whole target _ hlength _ hentry hkind := hb.result_of_whole target hlength hentry hkind

theorem Consistent.fitsTogether {b : Builder} (hb : b.Consistent) : b.FitsTogether where
  toFits := hb.covered.fits
  keys_eq := hb.keys_eq
  length_slots := by rw [hb.claimed, List.length_map]

/-- Every builder that accepted registrations lead to is consistent. -/
theorem Registered.consistent {b : Builder} (h : b.Registered) : b.Consistent := by
  induction h with
  | empty id source target => exact consistent_empty id source target
  | register _ hd h ih => exact ih.register hd h

/-- What an offer leaves has the rules of a builder that accepted registrations lead to, if that
held before: a slot that was claimed without a rule is out of the way of all later rules. -/
theorem Covered.exists_registered_left {b : Builder} (hb : b.Covered)
    (h : ∃ slots, ({ b with slots := slots } : Builder).Registered) (kind : Slot.Kind)
    {d : Slot.Descriptor} (hd : d.IsValid) (o : Offer) :
    ∃ slots, ({ b.left kind d o with slots := slots } : Builder).Registered := by
  obtain ⟨slots, hregistered⟩ := h
  rcases b.left_cases kind d o with ⟨c, _, hregister⟩ | hleft | ⟨s, _, _, hleft⟩
  · obtain ⟨s, hparse, hclear, hpush⟩ := register_eq_ok hregister
    have hclear₀ : ∀ x ∈ slots.map Prod.snd, s.overlaps x = false := by
      rw [hregistered.consistent.map_snd_slots]
      exact List.forall_mem_map.mpr (hb.overlaps_rule hclear)
    refine ⟨assign slots s.key s, ?_⟩
    rw [hpush]
    exact hregistered.register hd (register_of_clear hparse hclear₀ c)
  · exact ⟨slots, hleft.symm ▸ hregistered⟩
  · exact ⟨slots, hleft.symm ▸ hregistered⟩

end Builder

end Recast
