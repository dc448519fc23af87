import Recast.Proofs.CustomerCalls
import Recast.Proofs.Deputies

/-!
Addresses side by side. The countries of addresses that are mapped side by side are looked up in
their order, so it is known what each of them is replied, also when the replies depend on the
lookups that have begun before (`Enquiry.all`). The call goes on like that of deputies who know
their replies beforehand (`AddressService.AllDeputed.inStep_together`). Whatever times the replies
take, it gives the forms of the addresses that are present, in their order, or else the failure that
comes first (`AddressService.transformMany_brings`).
-/

set_option autoImplicit false

namespace Recast

/-! ### Enquiries -/

/-- An address with what its country is replied. -/
structure Enquiry where
  address : Address
  reply : CountryReply

namespace Enquiry

/-- An address that may be absent, with the reply after these lookups. -/
def after (service : List Value → ℤ → CountryReply) (before : List Value) :
    Option Address → Option Enquiry :=
  Option.map fun x ↦ ⟨x, service before x.country⟩

/-- What is looked up for an address that may be absent. -/
def begun : Option Enquiry → List Value
  | none => []
  | some q => [.int q.address.country]

/-- Addresses with their replies, when their countries are looked up one after the other. -/
def all (service : List Value → ℤ → CountryReply) :
    List Value → List (Option Address) → List (Option Enquiry)
  | _, [] => []
  | before, x :: xs => after service before x ::
      all service (before ++ begun (after service before x)) xs

/-- What mapping an address that may be absent ends in. -/
def fate : Option Enquiry → Fate
  | none => none
  | some q => q.reply.fate

/-- How long mapping an address takes after the delay. -/
def time : Option Enquiry → ℕ
  | none => 0
  | some q => q.reply.time

variable {service : List Value → ℤ → CountryReply}

theorem begun_after (before : List Value) (x : Option Address) :
    (begun (after service before x) : Multiset Value) = Address.lookups x := by
  cases x <;> rfl

theorem sum_begun_all (before : List Value) (xs : List (Option Address)) :
    ((all service before xs).map fun q ↦ (begun q : Multiset Value)).sum =
      (xs.map Address.lookups).sum := by
  induction xs generalizing before with
  | nil => rfl
  | cons x xs ih => rw [all, List.map_cons, List.sum_cons, begun_after, ih, List.map_cons,
      List.sum_cons]

end Enquiry

/-- The value is the form of an address that may be absent, with the name that its country is
replied. -/
def Store.HoldsReplied (s : Store) (w : Value) : Option Enquiry → Prop
  | none => w = .null
  | some q => ∃ name, q.reply.name = .ok name ∧ s.IsAddressForm w q.address name

/-- The outcome is what mapping an address on its own comes to. -/
def Store.Answers (s : Store) (q : Option Enquiry) : Outcome → Prop
  | .ok w => s.HoldsReplied w q
  | .error e => ∃ failed, q = some failed ∧ failed.reply.name = .error e.fault

/-- What mapping addresses side by side comes to, when their lookups start at a time: the forms of
all of them, in their order, or the failure that comes first, when it comes. -/
inductive Machine.Brings (m : Machine) (start : ℕ) (qs : List Enquiry) : Outcome → Prop
  | listed {id : ℕ} {items : List Value}
      (h : List.Forall₂ (fun q w ↦ m.store.Answers (some q) (.ok w)) qs items) :
      Brings m start qs (.ok (.list id items))
  | failed {q : Enquiry} {e : Raised} (hq : q ∈ qs) (he : q.reply.name = .error e.fault)
      (hfirst : ∀ other ∈ qs, ∀ f, other.reply.name = .error f → q.reply.time ≤ other.reply.time)
      (hnow : m.store.now = start + q.reply.time) : Brings m start qs (.error e)

namespace Machine.Brings

variable {m : Machine} {start : ℕ} {qs : List Enquiry} {o : Outcome}

/-- If no lookup fails, there is a list. -/
theorem exists_listed (h : m.Brings start qs o) (hok : ∀ q ∈ qs, ∀ f, q.reply.name ≠ .error f) :
    ∃ list items, o = .ok (.list list items) ∧
      List.Forall₂ (fun q w ↦ m.store.Answers (some q) (.ok w)) qs items := by
  cases h with
  | listed h => exact ⟨_, _, rfl, h⟩
  | failed hq he => exact absurd he (hok _ hq _)

/-- If a lookup fails, there is none. -/
theorem exists_failed (h : m.Brings start qs o)
    (hfails : ∃ q ∈ qs, ∃ f, q.reply.name = .error f) :
    ∃ q ∈ qs, ∃ e, o = .error e ∧ q.reply.name = .error e.fault ∧
      (∀ other ∈ qs, ∀ f, other.reply.name = .error f → q.reply.time ≤ other.reply.time) ∧
      m.store.now = start + q.reply.time := by
  cases h with
  | failed hq he hfirst hnow => exact ⟨_, hq, _, rfl, he, hfirst, hnow⟩
  | listed h =>
    obtain ⟨q, hq, f, hf⟩ := hfails
    refine absurd hf ?_
    induction h with
    | nil => cases hq
    | cons hw _ ih =>
      rcases List.mem_cons.mp hq with rfl | hq
      · obtain ⟨name, hname, _⟩ := hw
        exact hname ▸ nofun
      · exact ih hq

end Machine.Brings

namespace AddressService

section Deputies

variable {s : Store} {leaves : Prop} {service : List Value → ℤ → CountryReply}
  {lookup : CountryLookup} {a : AddressService} {before : List Value} {v : Value}
  {x : Option Address} {q : Option Enquiry} {part : AddressService × Value} {m : Machine}

/-! ### Deputies -/

/-- The part maps an address by a lookup that always comes to its reply. If just these lookups have
begun before, this is what the service does with it. -/
inductive Deputed (s : Store) (lookup : CountryLookup) (a : AddressService) (before : List Value)
    (v : Value) : Option Enquiry → AddressService × Value → Prop
  | absent (hv : v = .null) : Deputed s lookup a before v none (a, v)
  | present {q : Enquiry} {p : Prog} (hv : s.IsAddress v q.address) (hproper : q.reply.IsProper)
      (hcomes : q.reply.Comes p)
      (hsame : ∀ m : Machine, m.store.lookups = before → m.run (lookup (.int q.address.country)) =
        m.run (CountryReply.always p (.int q.address.country))) :
      Deputed s lookup a before v (some q) (a.deputy p, v)

theorem exists_deputed (hlookup : lookup.Serves service)
    (hproper : ∀ before n, (service before n).IsProper) (hx : s.HoldsAddress v x)
    (before : List Value) :
    ∃ part, Deputed s lookup a before v (Enquiry.after service before x) part := by
  cases x with
  | none => exact ⟨_, .absent hx⟩
  | some x =>
    obtain ⟨p, hcomes, hsame⟩ := hlookup before x.country
    exact ⟨_, .present hx (hproper _ _) hcomes hsame⟩

namespace Deputed

theorem delay_eq (h : Deputed s lookup a before v q part) : part.1.delay = a.delay := by
  cases h <;> rfl

variable (ha : a.Maps s lookup)

include ha

theorem exists_primed (h : Deputed s lookup a before v q part) :
    ∃ turns, Errand.Primed s leaves (Enquiry.fate q).Met turns (Enquiry.begun q : Multiset Value)
      (part.1.mapNow part.2).asCoroutine := by
  cases h with
  | absent hv =>
    subst hv
    exact ⟨6, primed_null a⟩
  | present hv hproper hcomes =>
    obtain ⟨turns, hprompt⟩ := hcomes.exists_prompt hproper _
    exact ⟨turns + 4, (ha.deputy _).primed hv hprompt⟩

theorem takes (h : Deputed s lookup a before v q part) :
    s.company.Takes (a.delay + Enquiry.time q) (part.1.transform part.2).asCoroutine := by
  have hnow : s.company.Takes (Enquiry.time q) (part.1.mapNow part.2) := by
    cases h with
    | absent hv =>
      subst hv
      exact takes_null a
    | present hv hproper hcomes => exact (ha.deputy _).takes hv (hcomes.takes_always hproper _)
  exact h.delay_eq ▸ takes_transform hnow

theorem returns (h : Deputed s lookup a before v q part) (hknown : Enquiry.fate q = none) :
    s.standing.Returns (fun s w ↦ s.HoldsReplied w q) (part.1.transform part.2).asCoroutine := by
  have hnow : s.standing.Returns (fun s w ↦ s.HoldsReplied w q) (part.1.mapNow part.2) := by
    cases h with
    | absent hv =>
      subst hv
      exact returns_null a
    | @present q p hv hproper hcomes =>
      obtain ⟨name, hname⟩ := CountryReply.fate_eq_none_iff.mp hknown
      exact ((ha.deputy p).returns hv (hcomes.returns_always hname _)).mono
        fun _ _ hw ↦ ⟨name, hname, hw⟩
  exact returns_of_mapNow hnow

/-- The part is a rival in a race. -/
theorem runs (h : Deputed s lookup a before v q part) (hm : s.company.holds m) :
    Rival.Runs s m ⟨m.store.now + (a.delay + Enquiry.time q), Enquiry.fate q⟩
      (.fresh (part.1.transform part.2).asCoroutine) := by
  obtain ⟨_, hprimed⟩ := h.exists_primed ha
  exact ⟨h.takes ha m hm, _, _, errand_of_primed hprimed⟩

/-- Mapping an address goes on like mapping it by its deputy. -/
theorem inStep (h : Deputed s lookup a m.store.lookups v q part) (hm : s.company.holds m) :
    m.InStep (.fresh (a.transform v).asCoroutine)
      (.fresh (part.1.transform part.2).asCoroutine) := by
  obtain ⟨_, hprimed⟩ : ∃ turns, Errand.Primed s True _ turns _ _ := h.exists_primed ha
  cases h with
  | absent => exact .refl _ _
  | present hv _ _ hsame =>
    have hdoubles := ha.doubles_mapNow hv hsame
    rw [transform_eq, transform_eq (a, v)]
    change m.InStep (.fresh (if a.delay = 0 then _ else _)) (.fresh (if a.delay = 0 then _ else _))
    split_ifs with hdelay
    · exact hdoubles.inStep hm (hprimed m hm.1).1
    · exact Prog.Doubles.inStep_asleep (f := wakened (a, v)) hdoubles hm
        (fun m hm ↦ (hprimed m hm).1) hdelay

end Deputed

/-! ### Deputies side by side -/

/-- The parts map addresses like deputies that are asked one after the other. -/
inductive AllDeputed (s : Store) (lookup : CountryLookup) (a : AddressService) :
    List Value → List Value → List (Option Enquiry) → List (AddressService × Value) → Prop
  | nil (before : List Value) : AllDeputed s lookup a before [] [] []
  | cons {before vs : List Value} {v : Value} {q : Option Enquiry} {qs : List (Option Enquiry)}
      {part : AddressService × Value} {parts : List (AddressService × Value)}
      (h : Deputed s lookup a before v q part)
      (hrest : AllDeputed s lookup a (before ++ Enquiry.begun q) vs qs parts) :
      AllDeputed s lookup a before (v :: vs) (q :: qs) (part :: parts)

theorem exists_allDeputed (hlookup : lookup.Serves service)
    (hproper : ∀ before n, (service before n).IsProper) {vs : List Value}
    {xs : List (Option Address)} (hxs : List.Forall₂ s.HoldsAddress vs xs) (before : List Value) :
    ∃ parts, AllDeputed s lookup a before vs (Enquiry.all service before xs) parts := by
  induction hxs generalizing before with
  | nil => exact ⟨[], .nil _⟩
  | cons hx _ ih =>
    obtain ⟨part, hpart⟩ := exists_deputed hlookup hproper hx before
    obtain ⟨parts, hparts⟩ := ih (before ++ Enquiry.begun (Enquiry.after service before _))
    exact ⟨part :: parts, .cons hpart hparts⟩

namespace AllDeputed

variable {vs : List Value} {qs : List (Option Enquiry)} {parts : List (AddressService × Value)}

theorem forall₂ (h : AllDeputed s lookup a before vs qs parts) :
    List.Forall₂ (fun q part ↦ ∃ before v, Deputed s lookup a before v q part) qs parts := by
  induction h with
  | nil => exact .nil
  | cons h _ ih => exact .cons ⟨_, _, h⟩ ih

theorem delay_eq (h : AllDeputed s lookup a before vs qs parts) :
    ∀ part ∈ parts, part.1.delay = a.delay := by
  induction h with
  | nil => exact nofun
  | cons h _ ih => exact List.forall_mem_cons.mpr ⟨h.delay_eq, ih⟩

theorem ne_nil (h : AllDeputed s lookup a before vs qs parts) (hne : vs ≠ []) : parts ≠ [] := by
  cases h with
  | nil => exact absurd rfl hne
  | cons => exact List.cons_ne_nil _ _

variable (ha : a.Maps s lookup)

include ha

theorem exists_primed (h : AllDeputed s lookup a before vs qs parts) :
    ∃ turns, Errands.Primed s leaves ((qs.map Enquiry.fate).map Fate.Met) turns
      (qs.map fun q ↦ (Enquiry.begun q : Multiset Value)).sum
      (parts.map fun part ↦ (part.1.mapNow part.2).asCoroutine) := by
  induction h with
  | nil => exact ⟨0, .nil⟩
  | cons h _ ih =>
    obtain ⟨_, hfirst⟩ := h.exists_primed ha
    obtain ⟨_, hrest⟩ := ih
    exact ⟨_, .cons hfirst hrest⟩

/-- The parts are doubles of what the service does. -/
theorem doubles (h : AllDeputed s lookup a before vs qs parts) :
    Doubles.All s before ((vs.map (a, ·)).map fun part ↦ (part.1.mapNow part.2).asCoroutine)
      (parts.map fun part ↦ (part.1.mapNow part.2).asCoroutine) := by
  induction h with
  | nil => exact .nil _
  | cons h _ ih =>
    obtain ⟨_, hprimed⟩ : ∃ turns, Errand.Primed s True _ turns _ _ := h.exists_primed ha
    cases h with
    | absent hv =>
      subst hv
      rw [Enquiry.begun, List.append_nil] at ih
      refine .same (fun m hm ↦ ⟨_, run_mapNow_null a m, ?_⟩) ih
      exact .of_sameBelow hm (Plan.sameBelow_log _ _ _)
    | present hv _ _ hsame => exact .going (ha.doubles_mapNow hv hsame) hprimed ih

/-- Mapping addresses side by side goes on like mapping them by their deputies. -/
theorem inStep_together (h : AllDeputed s lookup a m.store.lookups vs qs parts) (hne : vs ≠ [])
    (hm : s.company.holds m) :
    m.InStep (.fresh (a.transformMany vs).asCoroutine) (.fresh (together parts).asCoroutine) := by
  have hdelay : ∀ part ∈ vs.map (a, ·), part.1.delay = a.delay := by simp
  have hall := h.doubles ha
  rw [transformMany_eq, together, together, map_transform hdelay, map_transform h.delay_eq]
  change m.InStep (.fresh (.race _ _)) (.fresh (.race _ _))
  split_ifs with hnone
  · exact hall.inStep_race (by simpa using hne) hm
  · refine Doubles.All.inStep_race_asleep (by simpa using hne) ?_ hm hnone
    rwa [List.map_map, List.map_map (l := parts)]

/-- Where nothing fails, the deputies give the forms of the addresses that are present. -/
theorem returns_together (h : AllDeputed s lookup a before vs qs parts) (hne : parts ≠ [])
    (hknown : ∀ q ∈ qs, Enquiry.fate q = none) :
    s.standing.Returns (fun s w ↦ ∃ list items, w = .list list items ∧
        List.Forall₂ (fun w q ↦ s.HoldsReplied w (some q)) items (qs.filterMap id))
      (together parts).asCoroutine := by
  have hall : List.Forall₂ (fun q ↦ s.standing.Returns fun s w ↦ s.HoldsReplied w q) qs
      (parts.map fun part ↦ (part.1.transform part.2).asCoroutine) := by
    rw [List.forall₂_map_right_iff]
    refine ((List.forall₂_and_left _ _).mpr ⟨hknown, h.forall₂⟩).imp ?_
    rintro q part ⟨hnone, _, _, hpart⟩
    exact hpart.returns ha hnone
  exact returns_race (fun _ _ hw ↦ hw) (fun _ _ _ ⟨_, _, hform⟩ ↦ hform.isPresent)
    (by simpa using hne) hall

/-- When the deputies fail, it is by the failure that comes first. -/
theorem exists_earliest (h : AllDeputed s lookup a before vs qs parts) (hne : parts ≠ [])
    (hm : s.company.holds m) {m' : Machine} {began rounds : ℕ} {e : Raised}
    (hsettles : m.SettlesWithin (.fresh (together parts).asCoroutine) began rounds m' (.error e)) :
    ∃ q ∈ qs, (Enquiry.fate q).Met (.error e) ∧
      m'.store.now = m.store.now + a.delay + Enquiry.time q ∧
      ∀ other ∈ qs, Enquiry.fate other ≠ none → Enquiry.time q ≤ Enquiry.time other := by
  let rival (q : Option Enquiry) : Rival :=
    ⟨m.store.now + (a.delay + Enquiry.time q), Enquiry.fate q⟩
  have hruns : List.Forall₂ (Rival.Runs s m) (qs.map rival)
      ((parts.map fun part ↦ (part.1.transform part.2).asCoroutine).map .fresh) := by
    rw [List.forall₂_map_left_iff, List.forall₂_map_right_iff, List.forall₂_map_right_iff]
    refine h.forall₂.imp ?_
    rintro q part ⟨_, _, hpart⟩
    exact hpart.runs ha hm
  have hfailed : ∀ e, (keepPresent (.error e)).asCoroutine = .done (.error e) ∨
      e.StopsIteration := by
    intro e
    by_cases he : e.StopsIteration
    · exact Or.inr he
    · refine Or.inl (Prog.guarded_eq ?_)
      rintro _ ⟨⟩
      exact he
  obtain ⟨_, hmem, hmet, hnow, hleast⟩ := Rival.comesFirst_of_race
    (k := fun r ↦ (keepPresent r).asCoroutine) hfailed (fun vs m ↦ ⟨_, _, rfl⟩)
    (by simpa using hne) hruns hm hsettles
  obtain ⟨q, hq, rfl⟩ := List.mem_map.mp hmem
  refine ⟨q, hq, hmet, by rw [hnow, Nat.add_assoc], fun other hother hfails ↦ ?_⟩
  have hle := hleast _ (List.mem_map_of_mem hother) hfails
  exact Nat.le_of_add_le_add_left (Nat.le_of_add_le_add_left hle)

end AllDeputed

end Deputies

/-! ### Calls by themselves -/

section Call

variable {service : List Value → ℤ → CountryReply} {lookup : CountryLookup} {a : AddressService}
  {m : Machine} {vs : List Value} {q : Option Enquiry} {qs : List (Option Enquiry)}

/-- Mapping an address on its own comes to the form with the name that its country is replied, or to
the failure of the lookup. -/
theorem Deputed.answers {v : Value} {part : AddressService × Value}
    (h : Deputed m.store lookup a m.store.lookups v q part) (ha : a.Maps m.store lookup)
    (hm : m.IsIdle) :
    ∃ rounds m' o, m.SettlesWithin (.fresh (a.transform v).asCoroutine) m.store.now rounds m' o ∧
      m'.store.Answers q o := by
  obtain ⟨_, hprimed⟩ := h.exists_primed ha
  have herrand : Errand m.store (Enquiry.fate q ≠ none) _ _ _ _ := errand_of_primed hprimed
  obtain ⟨m', o, hsettles, hended⟩ := herrand.exists_settlesWithin hm fun hnot ↦
    h.returns ha (not_ne_iff.mp hnot)
  obtain ⟨rounds, hsettles⟩ := (h.inStep ha ⟨hm.stands, hm.strays⟩).exists_settlesWithin hsettles
  refine ⟨rounds, m', o, hsettles, ?_⟩
  cases o with
  | ok w =>
    obtain ⟨_, hsame, hform⟩ := hended.keeps (not_ne_iff.mpr hended.result.eq_none)
    cases hsame
    exact hform
  | error e =>
    cases q with
    | none => exact hended.result.elim
    | some q => exact ⟨q, rfl, CountryReply.fault_of_met hended.result⟩

/-- Of no addresses at all, the empty list is given. -/
theorem brings_nil (a : AddressService) (hm : m.IsIdle) (start : ℕ) :
    ∃ rounds m' o,
      m.SettlesWithin (.fresh (a.transformMany []).asCoroutine) m.store.now rounds m' o ∧
      m'.Brings start [] o ∧
      (∃ begun : List Value, m'.store.lookups = m.store.lookups ++ begun ∧
        (begun : Multiset Value) = 0) ∧ m'.BeginsNoMore := by
  have hinstant : m.store.Instant (fun o ↦ ∃ list, o = .ok (.list list []))
      (a.transformMany []).asCoroutine := fun _ _ ↦ ⟨_, _, rfl, Store.sameBelow_count _ _, _, rfl⟩
  have herrand : Errand m.store True _ _ _ _ := Errand.of_instant hinstant
  have hcontent : ¬ True → m.store.standing.Yields (fun _ _ ↦ True)
      (a.transformMany []).asCoroutine := fun hnot ↦ absurd trivial hnot
  obtain ⟨m', o, hsettles, hended⟩ := herrand.exists_settlesWithin hm hcontent
  obtain ⟨list, rfl⟩ := hended.result
  exact ⟨_, m', _, hsettles, .listed .nil, hended.lookups, hended.beginsNoMore⟩

/-- Mapping addresses side by side comes to the forms of those that are present, or to the failure
that comes first. -/
theorem AllDeputed.brings {parts : List (AddressService × Value)}
    (h : AllDeputed m.store lookup a m.store.lookups vs qs parts) (hne : vs ≠ [])
    (ha : a.Maps m.store lookup) (hm : m.IsIdle) :
    ∃ rounds m' o,
      m.SettlesWithin (.fresh (a.transformMany vs).asCoroutine) m.store.now rounds m' o ∧
      m'.Brings (m.store.now + a.delay) (qs.filterMap id) o ∧
      (∃ begun : List Value, m'.store.lookups = m.store.lookups ++ begun ∧
        (begun : Multiset Value) = (qs.map fun q ↦ (Enquiry.begun q : Multiset Value)).sum) ∧
      m'.BeginsNoMore := by
  have hparts := h.ne_nil hne
  have hholds : m.store.company.holds m := ⟨hm.stands, hm.strays⟩
  obtain ⟨_, hprimed⟩ := h.exists_primed ha
  have herrand : Errand m.store (raceFate (qs.map Enquiry.fate) ≠ none) _ _ _ _ :=
    errand_together hparts h.delay_eq id hprimed
  have hknown : ∀ {fates : List Fate}, ¬ raceFate fates ≠ none → ∀ fate ∈ fates, fate = none :=
    fun hnot ↦ raceFate_eq_none_iff.mp (not_ne_iff.mp hnot)
  obtain ⟨m', o, hsettles, hended⟩ := herrand.exists_settlesWithin hm fun hnot ↦
    h.returns_together ha hparts (List.forall_mem_map.mp (hknown hnot))
  obtain ⟨rounds, hsame⟩ := (h.inStep_together ha hne hholds).exists_settlesWithin hsettles
  refine ⟨rounds, m', o, hsame, ?_, hended.lookups, hended.beginsNoMore⟩
  cases o with
  | ok w =>
    obtain ⟨_, hw, list, items, rfl, hforms⟩ :=
      hended.keeps (not_ne_iff.mpr hended.result.eq_none)
    cases hw
    exact .listed hforms.flip
  | error e =>
    obtain ⟨q, hq, hmet, hnow, hleast⟩ := h.exists_earliest ha hparts hholds hsettles
    cases q with
    | none => exact hmet.elim
    | some q =>
      refine .failed (List.mem_filterMap.mpr ⟨_, hq, rfl⟩) (CountryReply.fault_of_met hmet)
        (fun other hother f hf ↦ ?_) hnow
      obtain ⟨_, hmem, rfl⟩ := List.mem_filterMap.mp hother
      refine hleast _ hmem fun hnone ↦ ?_
      obtain ⟨name, hname⟩ := CountryReply.fate_eq_none_iff.mp hnone
      cases hname.symm.trans hf

end Call

/-- Mapping addresses side by side neither loses nor duplicates, reorders or mixes up any of them,
whatever addresses they are, absent ones among them, whatever a country service replies to each
lookup, also when this depends on the lookups before, and whatever times the replies take. If all
succeed, the forms of all addresses that are present are listed in their order, each of them what
mapping the address on its own gives; else the failure is raised that comes first, when it comes.
Each address that is present is looked up exactly once in any case, and nothing else is. -/
theorem transformMany_brings {service : List Value → ℤ → CountryReply}
    (hproper : ∀ before n, (service before n).IsProper) {lookup : CountryLookup}
    (hlookup : lookup.Serves service) (delay : ℕ) (s₀ : Store) :
    ∃ a s, make lookup delay s₀ = (.ok a, s) ∧
      ∀ m : Machine, m.IsIdle → m.store.type? "AddressDto" = none →
        (∀ v x, m.store.HoldsAddress v x →
          ∃ rounds m' o,
            m.SettlesWithin (.fresh (a.transform v).asCoroutine) m.store.now rounds m' o ∧
            m'.store.Answers (Enquiry.after service m.store.lookups x) o) ∧
        ∀ vs xs, List.Forall₂ m.store.HoldsAddress vs xs →
          ∃ rounds m' o,
            m.SettlesWithin (.fresh (a.transformMany vs).asCoroutine) m.store.now rounds m' o ∧
            m'.Brings (m.store.now + delay)
              ((Enquiry.all service m.store.lookups xs).filterMap id) o ∧
            (∃ begun : List Value, m'.store.lookups = m.store.lookups ++ begun ∧
              (begun : Multiset Value) = (xs.map Address.lookups).sum) ∧
            m'.BeginsNoMore := by
  obtain ⟨a, s, hmake, ha, rfl, _⟩ := exists_make lookup delay s₀
  refine ⟨a, s, hmake, fun m hm hclear ↦ ⟨fun v x hx ↦ ?_, fun vs xs hxs ↦ ?_⟩⟩
  · obtain ⟨part, hpart⟩ := exists_deputed hlookup hproper hx m.store.lookups
    exact hpart.answers (ha.maps hclear) hm
  · rw [← Enquiry.sum_begun_all m.store.lookups xs]
    obtain ⟨parts, hparts⟩ := exists_allDeputed hlookup hproper hxs m.store.lookups
    by_cases hne : vs = []
    · subst hne
      cases hxs
      exact brings_nil a hm _
    · exact hparts.brings hne (ha.maps hclear) hm

end AddressService

namespace Sample

/-- A country service that knows no country any more when it has been asked once. Each reply comes
earlier than the one before. -/
def tired (before : List Value) (n : ℤ) : CountryReply where
  time := 300 - 100 * before.length
  name := if before = [] then .ok "Thailand" else .error (Directory.unknownNumber n)

theorem isProper_tired (before : List Value) (n : ℤ) : (tired before n).IsProper := by
  intro args hargs
  rw [tired] at hargs
  dsimp only at hargs
  split_ifs at hargs
  cases hargs

/-- The values of an address, of an absent one, of another one, and of the first one again. -/
def parcels : List Value := [.record 0 "Address", .null, .record 2 "Address", .record 0 "Address"]

theorem holds_parcels : List.Forall₂ shop.store.HoldsAddress parcels
    [some home, none, some warehouse, some home] := by
  have hhome : shop.store.HoldsAddress (.record 0 "Address") (some home) :=
    ⟨0, rfl, rfl, rfl, rfl, rfl, rfl⟩
  have hwarehouse : shop.store.HoldsAddress (.record 2 "Address") (some warehouse) :=
    ⟨2, rfl, rfl, rfl, rfl, rfl, rfl⟩
  exact .cons hhome (.cons rfl (.cons hwarehouse (.cons hhome .nil)))

/-- With a directory in which the second reply comes first, three forms are listed in the order of
the addresses; with the other service, the third lookup fails first. -/
theorem parcels_are_mapped :
    let countries := [(1, "Thailand"), (2, "UK")]
    let latency := [(.int 1, 300), (.int 2, 200)]
    let directory := (Directory.mk (Directory.ofCountries countries).table latency).lookup
    let threeLookups (m : Machine) := ∃ begun : List Value, m.store.lookups = begun ∧
      (begun : Multiset Value) = {.int 1, .int 2, .int 1}
    (∃ a s, AddressService.make directory 20 Store.empty = (.ok a, s) ∧
      (∃ rounds m' w,
        shop.SettlesWithin (.fresh (a.transform (.record 2 "Address")).asCoroutine) 0 rounds m'
          (.ok w) ∧ m'.store.IsAddressForm w warehouse "UK") ∧
      ∃ rounds m' list w₁ w₂ w₃,
        shop.SettlesWithin (.fresh (a.transformMany parcels).asCoroutine) 0 rounds m'
          (.ok (.list list [w₁, w₂, w₃])) ∧
        m'.store.IsAddressForm w₁ home "Thailand" ∧
        m'.store.IsAddressForm w₂ warehouse "UK" ∧
        m'.store.IsAddressForm w₃ home "Thailand" ∧ threeLookups m') ∧
    ∃ a s, AddressService.make (CountryLookup.ofReplies tired) 20 Store.empty = (.ok a, s) ∧
      ∃ rounds m' e,
        shop.SettlesWithin (.fresh (a.transformMany parcels).asCoroutine) 0 rounds m' (.error e) ∧
        e.fault = Directory.unknownNumber 1 ∧ m'.store.now = 120 ∧ threeLookups m' := by
  intro countries latency directory threeLookups
  have hidle : shop.IsIdle := ⟨rfl, rfl⟩
  have hclear : shop.store.type? "AddressDto" = none := rfl
  constructor
  · obtain ⟨a, s, hmake, hcalls⟩ := AddressService.transformMany_brings
      (fun _ ↦ Directory.isProper_reply countries latency)
      (Directory.serves_lookup countries latency) 20 Store.empty
    obtain ⟨halone, htogether⟩ := hcalls shop hidle hclear
    refine ⟨a, s, hmake, ?_, ?_⟩
    · obtain ⟨rounds, m', o, hsettles, hanswers⟩ :=
        halone (.record 2 "Address") (some warehouse) ⟨2, rfl, rfl, rfl, rfl, rfl, rfl⟩
      cases o with
      | ok w =>
        obtain ⟨name, hname, hform⟩ := hanswers
        cases hname
        exact ⟨rounds, m', w, hsettles, hform⟩
      | error e =>
        obtain ⟨_, hq, hname⟩ := hanswers
        cases hq
        cases hname
    · obtain ⟨rounds, m', o, hsettles, hbrings, hlookups, _⟩ := htogether _ _ holds_parcels
      obtain ⟨list, items, rfl, h⟩ := hbrings.exists_listed (by
        simp only [Enquiry.all, Enquiry.after, Option.map, List.filterMap, id,
          List.forall_mem_cons, List.not_mem_nil, false_implies, implies_true, and_true]
        exact ⟨nofun, nofun, nofun⟩)
      obtain ⟨w₁, _, ⟨_, hname₁, h₁⟩, hsecond, rfl⟩ := List.forall₂_cons_left_iff.mp h
      obtain ⟨w₂, _, ⟨_, hname₂, h₂⟩, hthird, rfl⟩ := List.forall₂_cons_left_iff.mp hsecond
      obtain ⟨w₃, _, ⟨_, hname₃, h₃⟩, hend, rfl⟩ := List.forall₂_cons_left_iff.mp hthird
      cases hend
      cases hname₁
      cases hname₂
      cases hname₃
      exact ⟨rounds, m', list, w₁, w₂, w₃, hsettles, h₁, h₂, h₃, hlookups⟩
  · obtain ⟨a, s, hmake, hcalls⟩ := AddressService.transformMany_brings isProper_tired
      (CountryLookup.serves_ofReplies tired) 20 Store.empty
    obtain ⟨rounds, m', o, hsettles, hbrings, hlookups, _⟩ :=
      (hcalls shop hidle hclear).2 _ _ holds_parcels
    let enquiries := Enquiry.all tired [] [some home, none, some warehouse, some home]
    have hthird : ⟨home, tired [.int 1, .int 2] 1⟩ ∈ enquiries.filterMap id :=
      List.mem_cons_of_mem _ (List.mem_cons_of_mem _ List.mem_cons_self)
    obtain ⟨q, hq, e, rfl, he, hfirst, hnow⟩ := hbrings.exists_failed ⟨_, hthird, _, rfl⟩
    have hle := hfirst _ hthird _ rfl
    simp only [Enquiry.all, Enquiry.after, Option.map, List.filterMap, id, List.mem_cons,
      List.not_mem_nil, or_false] at hq
    refine ⟨a, s, hmake, rounds, m', e, hsettles, ?_⟩
    rcases hq with rfl | rfl | rfl
    · cases he
    · exact absurd hle (by decide)
    · exact ⟨(Except.error.inj he).symm, hnow, hlookups⟩

end Sample

end Recast
