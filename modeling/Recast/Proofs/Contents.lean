import Recast.Proofs.Keeping
import Recast.Proofs.Customers

/-!
What mapped customers hold. A mapper of single attributes whose computes return values gives a
record of them (`Builder.Plain.returns_series`). So an address of a country that is known is mapped
to its form, several addresses to the list of the forms of those that are present
(`AddressService.returns_transformMany`), and a customer for whom nothing fails to its form, in
whatever order the parts of all this go on (`CustomerService.returns_getById`).
-/

set_option autoImplicit false

namespace Recast

/-! ### Programs that return -/

/-- The program yields a value as told. -/
def Surroundings.Returns (c : Surroundings) (is : Store → Value → Prop) (p : Prog) : Prop :=
  c.Yields (fun m o ↦ ∃ v, o = .ok v ∧ is m.store v) p

namespace Surroundings.Returns

variable {c : Surroundings} {is is' : Store → Value → Prop} {p : Prog}

theorem mono (h : c.Returns is p) (his : ∀ s v, is s v → is' s v) : c.Returns is' p :=
  Yields.mono h fun _ _ _ ⟨v, hv, hright⟩ ↦ ⟨v, hv, his _ v hright⟩

theorem asCoroutine (h : c.Returns is p) : c.Returns is p.asCoroutine := by
  refine Yields.asCoroutine h ?_
  rintro m e ⟨v, hv, _⟩
  cases hv

/-- What ends at once in the value that it follows can follow. -/
theorem echo (h : c.Returns is p) {f : Value → Prog}
    (hf : ∀ m v, c.holds m → is m.store v →
      ∃ m', m.run (f v) = (m', .settled (.ok v)) ∧ c.holds m' ∧ m.SameRecords m') :
    c.Returns is (p.andThen f) := by
  rw [Prog.andThen_eq]
  refine Yields.echo h ?_
  rintro m _ hm ⟨v, rfl, hv⟩
  exact hf m v hm hv

/-- There is nothing to wait for in a value that is no awaitable. -/
theorem andThen_await (h : c.Returns is p) (his : ∀ s v, is s v → v.isAwaitable = false) :
    c.Returns is (p.andThen Compute.await) := by
  refine h.echo fun m v hm hv ↦ ⟨m, ?_, hm, rfl, rfl⟩
  rw [Compute.await, his _ v hv]
  rfl

/-- An action that changes nothing ends at once in its value. -/
theorem of_action {a : Action Value} {v : Value}
    (h : ∀ m, c.holds m → a m.store = (.ok v, m.store)) (hv : ∀ s, is s v) :
    c.Returns is (Prog.ofAction a) := by
  refine EndsIn.yields fun m hm ↦ ⟨m, .ok v, ?_, hm, .refl m _, fun m' _ _ ↦ ⟨v, rfl, hv _⟩⟩
  rw [Machine.run_ofAction, Machine.act, h m hm]

/-- An attribute is read before. -/
theorem read {v w : Value} {name : String}
    (hread : ∀ m, c.holds m → m.store.attribute? v name = some w) {f : Value → Prog}
    (h : c.Returns is (f w)) : c.Returns is (Prog.first (Action.readAttribute v name) f) := by
  refine Yields.lead fun m hm ↦ ⟨m, f w, ?_, hm, ⟨rfl, rfl⟩, h⟩
  rw [Prog.first, Machine.run_act, Machine.act, Store.readAttribute_eq, hread m hm]

end Surroundings.Returns

/-! ### Mappers -/

/-- The value is a record of a type, and each of these attributes is as told. -/
def Store.IsRecordOf (s : Store) (v : Value) (type : String)
    (parts : List (String × (Value → Prop))) : Prop :=
  ∃ ref, v = .record ref type ∧
    ∀ part ∈ parts, ∃ w, s.attribute? v part.1 = some w ∧ part.2 w

/-- A plan of field rules of which none is to fail ends in the target, with all values in place. -/
theorem Plan.Ending.of_field {plan : Plan} {m : Machine} {o : Outcome} (h : plan.Ending m o)
    (hfields : ∀ r ∈ plan.rules, r.kind = .field) (hnone : plan.failure? = none) :
    o = .ok plan.target ∧ ∀ r ∈ plan.rules, ∃ v, (plan.promise r).Kept m (.ok v) ∧
      m.store.walk plan.target r.slot.path = some v := by
  have hwhole : ∀ r, plan.rules = [r] → r.kind ≠ .whole := by
    intro r hrules hkind
    cases hkind.symm.trans (hfields r (hrules ▸ List.mem_singleton_self r))
  cases h with
  | failed hfails => cases hnone.symm.trans hfails
  | filled _ _ hvalues => exact ⟨rfl, hvalues⟩
  | whole _ hrules hkind => exact absurd hkind (hwhole _ hrules)
  | object _ hrules hkind => exact absurd hkind (hwhole _ hrules)

theorem Store.walk_singleton (s : Store) (v : Value) (name : String) :
    s.walk v [name] = s.attribute? v name := by
  rw [walk]
  cases s.attribute? v name <;> rfl

namespace Builder.Plain

variable {b : Builder} {s : Store} {pattern : Pattern} {source : Value}

/-- A mapper whose computes yield values fills its target with them. -/
theorem yields_transform (h : b.Plain s pattern) (hsource : source ≠ .null)
    {is : Rule → Machine → Value → Prop} (hcomputes : ∀ r ∈ b.rules,
      s.standing.Yields (Promise.value (is r)).Kept (r.evaluate source)) :
    s.standing.Yields (fun m o ↦ ∃ ref type, o = .ok (.record ref type) ∧
        Value.shell pattern.target = .record 0 type ∧ ∀ r ∈ b.rules, ∃ v, is r m v ∧
          m.store.walk (.record ref type) r.slot.path = some v)
      (b.snapshot.transform source) := by
  choose! good hgood hstart using hcomputes
  refine .of_run fun m hm ↦ ?_
  obtain ⟨target, built, hmade, hrun, hdeed⟩ := h.run_transform hsource hm
  have hsound := h.consistent.isSound hmade.makesAnew (fun r ↦ .value (is r))
    (s.standing.base_le hm)
  have hnone : (b.snapshot.plan (fun r ↦ .value (is r)) m.store target built).failure? = none := by
    refine List.findSome?_eq_none_iff.mpr fun r hr ↦ ?_
    obtain ⟨spot, _, _, hland⟩ := h.exists_landing hm hmade hr
    have hplace := hland _ hdeed.stands
    simp only [Plan.failureOf?, Mapper.plan, hplace]
  rw [hrun]
  refine ⟨hmade.holds hm, hmade.spares _, _,
    (Plan.discipline_gathering hsound hgood rfl).mono ?_, _, _,
    Plan.underway_start rfl fun r hr ↦ hstart r hr _ (hmade.holds hm), Or.inl rfl⟩
  intro m' o _ hending
  obtain ⟨rfl, hvalues⟩ := hending.of_field h.field hnone
  obtain ⟨r, hr⟩ := List.exists_mem_of_ne_nil _ h.rules_ne_nil
  obtain ⟨spot, _, rfl, _⟩ := h.exists_landing hm hmade hr
  exact ⟨spot.ref, spot.type, rfl, (Store.shell_eq_of_look hmade.look_eq).symm, hvalues⟩

/-- A mapper of rules in a series gives a record of what their computes return. -/
theorem returns_series {owner ref : ℕ} {type : String} {entries : List (String × Compute)}
    (h : b.Plain s pattern) (hrules : b.rules = Rule.series owner 0 entries)
    (htarget : pattern.target = .record ref type) (hsource : source ≠ .null)
    {parts : Store → List (String × (Value → Prop))}
    (hparts : ∀ s, ∀ part ∈ parts s, part.1 ∈ entries.map Prod.fst)
    (hcomputes : ∀ entry ∈ entries, ∀ r : Rule, r.compute = entry.2 →
      s.standing.Returns (fun s v ↦ ∀ part ∈ parts s, part.1 = entry.1 → part.2 v)
        (r.evaluate source)) :
    s.standing.Returns (fun s v ↦ s.IsRecordOf v type (parts s)) (b.snapshot.transform source) := by
  have hyields : ∀ r ∈ b.rules, s.standing.Yields (Promise.value fun m v ↦
      ∀ part ∈ parts m.store, part.1 = r.attribute → part.2 v).Kept (r.evaluate source) := by
    intro r hr
    obtain ⟨entry, hentry, hslot, hcompute⟩ := Rule.mem_series (hrules ▸ hr)
    refine Surroundings.Yields.mono (hcomputes entry hentry r hcompute) ?_
    rintro m _ _ ⟨v, rfl, hv⟩
    rw [attribute_eq hslot]
    exact hv
  refine (h.yields_transform hsource hyields).mono ?_
  rintro m _ _ ⟨ref', type', rfl, hshell, hvalues⟩
  obtain rfl : type = type' := by
    rw [htarget] at hshell
    cases hshell
    rfl
  refine ⟨_, rfl, ref', rfl, fun part hpart ↦ ?_⟩
  have hname : part.1 ∈ b.rules.map fun r ↦ r.attribute := by
    rw [hrules, Rule.map_series fun name ↦ name]
    exact hparts _ part hpart
  obtain ⟨r, hr, hattribute⟩ := List.mem_map.mp hname
  obtain ⟨v, hv, hwalk⟩ := hvalues r hr
  obtain ⟨entry, _, hslot, _⟩ := Rule.mem_series (hrules ▸ hr)
  refine ⟨v, ?_, hv part hpart hattribute.symm⟩
  rw [hslot, ← attribute_eq hslot, hattribute] at hwalk
  exact (Store.walk_singleton _ _ _).symm.trans hwalk

end Builder.Plain

/-! ### Addresses -/

/-- The value is the form of an address. -/
def Store.IsAddressForm (s : Store) (v : Value) (x : Address) (country : String) : Prop :=
  s.IsRecordOf v "AddressDto"
    [("street", (· = .text x.street)), ("area", (· = .text x.area)),
      ("state", (· = .text x.province)), ("postcode", (· = .text x.zipcode)),
      ("country_name", (· = .text country))]

/-- The value is the form of an address that may be absent, with the name of its country. -/
def Store.HoldsAddressForm (s : Store) (countries : List (ℤ × String)) (v : Value) :
    Option Address → Prop
  | none => v = .null
  | some x => ∃ country, countries.lookup x.country = some country ∧ s.IsAddressForm v x country

/-- The value is a list of the forms of addresses. -/
def Store.ListsAddressForms (s : Store) (countries : List (ℤ × String)) (v : Value)
    (xs : List Address) : Prop :=
  ∃ id items, v = .list id items ∧
    List.Forall₂ (fun w x ↦ s.HoldsAddressForm countries w (some x)) items xs

section Address

variable {s : Store} {countries : List (ℤ × String)} {lookup : CountryLookup}

theorem Store.Stands.note {m : Machine} (hm : s.Stands m) (country : Value) :
    s.Stands (m.act (Directory.noteLookup country)).2 :=
  ⟨hm.types, hm.futures, hm.tasks, hm.size_le, hm.records⟩

/-- The lookup of a country that is known returns its name. -/
theorem Directory.ToldBy.returns (h : (ofCountries countries).ToldBy lookup) {n : ℤ}
    {country : String} (hn : countries.lookup n = some country) :
    s.standing.Returns (fun _ v ↦ v = .text country) (lookup (.int n)) := by
  have hname : s.standing.Returns (fun _ v ↦ v = .text country)
      (Prog.ofAction ((ofCountries countries).name (.int n))) := by
    refine .of_action (fun m _ ↦ ?_) fun _ ↦ rfl
    rw [name_ofCountries, hn]
  refine Surroundings.Yields.lead fun m hm ↦ ?_
  obtain ⟨p, hrun, hp⟩ := h m (.int n)
  refine ⟨_, p, hrun, hm.note _, ⟨rfl, rfl⟩, ?_⟩
  rcases hp with rfl | ⟨ms, k, rfl, hk⟩
  · exact hname
  · exact Surroundings.Yields.sleep (hk ▸ hname)

/-- A rule that copies an attribute returns it. -/
theorem AddressService.returns_copy {ref : ℕ} {name : String} {w : Value}
    (h : s.field? ref name = some w) (hw : w.isAwaitable = false) (type : String) {r : Rule}
    (hr : r.compute = copy name) :
    s.standing.Returns (fun _ v ↦ v = w) (r.evaluate (.record ref type)) := by
  have hread : s.standing.Returns (fun _ v ↦ v = w)
      (Prog.ofAction (Action.readAttribute (.record ref type) name)) :=
    .of_action (fun m hm ↦ CustomerService.readAttribute_eq hm h type) fun _ ↦ rfl
  rw [Rule.evaluate_plain hr]
  exact hread.andThen_await fun _ _ hv ↦ hv ▸ hw

/-- Of what the addresses are mapped to, what is present are the forms of those that are. -/
theorem AddressService.forms_of_present {α : Type} {holds : Value → Option α → Prop}
    (habsent : ∀ w, holds w none → w = .null)
    (hpresent : ∀ w x, holds w (some x) → isPresent w = true) {ws : List Value}
    {xs : List (Option α)} (h : List.Forall₂ (fun x w ↦ holds w x) xs ws) :
    List.Forall₂ (fun w x ↦ holds w (some x)) (ws.filter isPresent) (xs.filterMap id) := by
  induction h with
  | nil => exact .nil
  | @cons x w xs ws hw _ ih =>
    cases x with
    | none =>
      obtain rfl := habsent w hw
      exact ih
    | some x =>
      rw [List.filter_cons_of_pos (hpresent w x hw)]
      exact .cons hw ih

theorem Store.IsAddressForm.isPresent {s : Store} {w : Value} {x : Address} {country : String}
    (h : s.IsAddressForm w x country) : AddressService.isPresent w = true := by
  obtain ⟨ref, rfl, _⟩ := h
  rfl

namespace AddressService

/-- An absent address is mapped to nothing. -/
theorem returns_null (a : AddressService) :
    s.standing.Returns (fun _ w ↦ w = .null) (a.mapNow .null) := by
  refine Surroundings.Yields.lead fun m hm ↦
    ⟨{ m with store := { m.store with log := m.store.log ++ [entry] } }, Prog.give .null, rfl,
      s.standing.stable hm (Plan.sameBelow_log _ _ _), ⟨rfl, rfl⟩, ?_⟩
  exact (Surroundings.endsIn_give fun _ _ ↦ ⟨.null, rfl, rfl⟩).yields

/-- With the name that its country is looked up with, an address is mapped to its form. -/
theorem Maps.returns {a : AddressService} (ha : a.Maps s lookup) {v : Value} {x : Address}
    (hx : s.IsAddress v x) {country : String}
    (hcountry : s.standing.Returns (fun _ v ↦ v = .text country) (lookup (.int x.country))) :
    s.standing.Returns (fun s w ↦ s.IsAddressForm w x country) (a.mapNow v) := by
  obtain ⟨b, owner, hb, hrules, hmapper⟩ := ha
  obtain ⟨ref, rfl, hstreet, harea, hprovince, hzipcode, hnumber⟩ := hx
  have hsource : Value.record ref "Address" ≠ .null := fun hnull ↦ by cases hnull
  have hform : s.standing.Returns (fun s w ↦ s.IsAddressForm w x country)
      (b.snapshot.transform (.record ref "Address")) := by
    refine hb.returns_series hrules rfl hsource (fun _ ↦ ?_) ?_
    · simp [rules]
    · simp only [rules, List.forall_mem_cons, List.not_mem_nil, false_implies, implies_true,
        and_true, String.reduceEq, true_implies, true_and]
      refine ⟨fun r hr ↦ returns_copy hstreet rfl _ hr,
        fun r hr ↦ returns_copy harea rfl _ hr,
        fun r hr ↦ returns_copy hprovince rfl _ hr,
        fun r hr ↦ returns_copy hzipcode rfl _ hr, fun r hr ↦ ?_⟩
      rw [Rule.evaluate_asynchronous hr]
      exact (Surroundings.Returns.read (fun m (hm : s.Stands m) ↦ hm.attribute?_eq hnumber _)
        hcountry).asCoroutine
  rw [mapNow, hmapper]
  refine hform.asCoroutine.echo fun m w hm _ ↦ ?_
  exact ⟨{ m with store := { m.store with log := m.store.log ++ [entry] } }, rfl,
    s.standing.stable hm (Plan.sameBelow_log _ _ _), rfl, rfl⟩

/-- The delay makes no difference. -/
theorem returns_of_mapNow {a : AddressService} {v : Value} {is : Store → Value → Prop}
    (h : s.standing.Returns is (a.mapNow v)) :
    s.standing.Returns is (a.transform v).asCoroutine := by
  refine Surroundings.Returns.asCoroutine ?_
  rw [transform]
  split_ifs
  · exact h
  · exact Surroundings.Yields.sleep h

/-- Addresses that are mapped side by side give the list of the forms of those that are present. -/
theorem returns_race {α : Type} {holds : Store → Value → Option α → Prop}
    (habsent : ∀ s w, holds s w none → w = .null)
    (hpresent : ∀ s w x, holds s w (some x) → isPresent w = true) {xs : List (Option α)}
    {progs : List Prog} (hne : progs ≠ [])
    (h : List.Forall₂ (fun x ↦ s.standing.Returns fun s w ↦ holds s w x) xs progs) :
    s.standing.Returns (fun s w ↦ ∃ list items, w = .list list items ∧
        List.Forall₂ (fun w x ↦ holds s w (some x)) items (xs.filterMap id))
      (Prog.race progs keepPresent).asCoroutine := by
  let result (x : Option α) (m : Machine) (o : Outcome) : Prop :=
    ∃ w, o = .ok w ∧ holds m.store w x
  have hall : List.Forall₂ s.standing.Yields (xs.map result) progs :=
    List.forall₂_map_left_iff.mpr h
  refine Surroundings.Returns.asCoroutine ?_
  refine Surroundings.Yields.race ?_ (fun m ws hm _ ↦ ?_) hne hall
  · refine List.forall_mem_map.mpr fun x _ m e he ↦ ?_
    obtain ⟨_, he, _⟩ := he
    cases he
  · refine ⟨{ m with store := { m.store with nextId := m.store.nextId + 1 } },
      .ok (.list m.store.nextId (ws.filter isPresent)), rfl,
      s.standing.stable hm (Store.sameBelow_count _ _), ⟨rfl, rfl⟩, fun m' _ hws ↦ ?_⟩
    have hvalues : List.Forall₂ (fun x w ↦ holds m'.store w x) xs ws := by
      refine (List.forall₂_map_left_iff.mp hws).imp fun x w hw ↦ ?_
      obtain ⟨_, hsame, hform⟩ := hw
      cases hsame
      exact hform
    exact ⟨_, rfl, _, _, rfl, forms_of_present (habsent _) (hpresent _) hvalues⟩

variable {a : AddressService} (hclear : s.type? "AddressDto" = none)
  (hlookup : (Directory.ofCountries countries).ToldBy lookup) (ha : a.IsMade lookup)

include hclear hlookup ha

theorem returns_mapNow {v : Value} {x : Option Address} (hx : s.HoldsAddress v x)
    (hknown : Directory.fateOf countries x = none) :
    s.standing.Returns (fun s w ↦ s.HoldsAddressForm countries w x) (a.mapNow v) := by
  cases x with
  | none =>
    obtain rfl : v = .null := hx
    exact returns_null a
  | some x =>
    obtain ⟨country, hcountry⟩ : ∃ country, countries.lookup x.country = some country := by
      rw [Directory.fateOf, Directory.fate] at hknown
      cases hfound : countries.lookup x.country with
      | none =>
        rw [hfound] at hknown
        cases hknown
      | some country => exact ⟨country, rfl⟩
    exact ((ha.maps hclear).returns hx (hlookup.returns hcountry)).mono fun _ _ hw ↦
      ⟨country, hcountry, hw⟩

/-- An address of a country that is known is mapped to its form. -/
theorem returns_transform {v : Value} {x : Option Address} (hx : s.HoldsAddress v x)
    (hknown : Directory.fateOf countries x = none) :
    s.standing.Returns (fun s w ↦ s.HoldsAddressForm countries w x)
      (a.transform v).asCoroutine :=
  returns_of_mapNow (returns_mapNow hclear hlookup ha hx hknown)

/-- Addresses of countries that are known are mapped to the list of the forms of those that are
present, in their order. -/
theorem returns_transformMany {vs : List Value} {xs : List (Option Address)} (hne : vs ≠ [])
    (hxs : List.Forall₂ s.HoldsAddress vs xs)
    (hknown : ∀ x ∈ xs, Directory.fateOf countries x = none) :
    s.standing.Returns (fun s w ↦ s.ListsAddressForms countries w (xs.filterMap id))
      (a.transformMany vs).asCoroutine := by
  have hall : List.Forall₂
      (fun x ↦ s.standing.Returns fun s w ↦ s.HoldsAddressForm countries w x) xs
      ((vs.map (a, ·)).map fun part ↦ (part.1.transform part.2).asCoroutine) := by
    clear hne
    induction hxs with
    | nil => exact .nil
    | cons hx _ ih =>
      exact .cons (returns_transform hclear hlookup ha hx (hknown _ List.mem_cons_self))
        (ih fun x hmem ↦ hknown x (List.mem_cons_of_mem _ hmem))
  rw [transformMany_eq]
  exact returns_race (fun _ _ hw ↦ hw) (fun _ _ _ ⟨_, _, hform⟩ ↦ hform.isPresent)
    (by simpa using hne) hall

end AddressService

end Address

/-! ### Customers -/

/-- The value is the form of the contact details of a customer, with the dialling code of the home
country and the names of countries. -/
def Store.IsContactForm (s : Store) (countries : List (ℤ × String)) (c : Customer) (code : String)
    (v : Value) : Prop :=
  s.IsRecordOf v "ContactDto"
    [("first", (· = .text c.firstName)), ("last", (· = .text c.surname)),
      ("phone_number", (· = .text (c.international code))),
      ("home_address", (s.HoldsAddressForm countries · c.home)),
      ("other_addresses", (s.ListsAddressForms countries · c.others))]

/-- The value is the form of a customer. -/
def Store.IsCustomerForm (s : Store) (countries : List (ℤ × String)) (c : Customer) (code : String)
    (v : Value) : Prop :=
  s.IsRecordOf v "CustomerDto"
    [("customer_id", (· = .int c.number)), ("date_joined", (· = .text c.joined.dayMonthYear)),
      ("contact", s.IsContactForm countries c code)]

namespace CustomerService

section Returns

variable {s : Store} {countries : List (ℤ × String)} {lookup : CountryLookup}
  {addresses : AddressService} {v home business shipping : Value} {c : Customer} {ref : ℕ}
  {code : String}

theorem returns_phone (hc : s.IsCustomer v c ref home business shipping)
    (hcode : Customer.diallingCodes.lookup c.homeCountry = some code) (hphone : c.phone ≠ "") :
    s.standing.Returns (fun _ w ↦ w = .text (c.international code)) (Prog.ofAction (phone v)) := by
  refine .of_action (fun m hm ↦ ?_) fun _ ↦ rfl
  rw [phone_eq hm hc, hcode]
  exact if_neg hphone

theorem returns_joined (hc : s.IsCustomer v c ref home business shipping) :
    s.standing.Returns (fun _ w ↦ w = .text c.joined.dayMonthYear) (Prog.ofAction (joined v)) := by
  refine .of_action (fun m hm ↦ ?_) fun _ ↦ rfl
  rw [hc.record, joined, bind_readAttribute hm hc.joined]
  rfl

end Returns

section Mapper

variable {s : Store} {countries : List (ℤ × String)} {lookup : CountryLookup}
  {addresses : AddressService} {v home business shipping : Value} {c : Customer} {ref : ℕ}
  {code : String} (hclear : s.IsClear) (hlookup : (Directory.ofCountries countries).ToldBy lookup)
  (ha : addresses.IsMade lookup) (hc : s.IsCustomer v c ref home business shipping)
  (hcode : Customer.diallingCodes.lookup c.homeCountry = some code) (hphone : c.phone ≠ "")
  (hhome : Directory.fateOf countries c.home = none) (hothers : c.othersFate countries = none)

include hclear hlookup ha hc hcode hphone hhome hothers

/-- Where nothing fails, the contact details are mapped to their form. -/
theorem returns_contact {contact : Builder} {owner : ℕ} (hcontact : contact.Registered)
    (htarget : contact.target = "ContactDto")
    (hrules : contact.rules = Rule.series owner 0 (contactRules addresses)) :
    s.standing.Returns (fun s w ↦ s.IsContactForm countries c code w)
      (contact.snapshot.transform v) := by
  have hv : v ≠ .null := hc.ne_null
  have hread : ∀ {name : String} {w : Value}, s.field? ref name = some w →
      ∀ m, s.standing.holds m → m.store.attribute? v name = some w := by
    intro name w h m hm
    rw [hc.record]
    exact Store.Stands.attribute?_eq hm h _
  have hcopy : ∀ {name t : String}, s.field? ref name = some (.text t) →
      ∀ r : Rule, r.compute = AddressService.copy name →
        s.standing.Returns (fun _ w ↦ w = .text t) (r.evaluate v) := by
    intro name t h r hr
    rw [hc.record]
    exact AddressService.returns_copy h rfl _ hr
  have hfalse : ∀ {x : Option Address} (s : Store) (w : Value),
      s.HoldsAddressForm countries w x → w.isAwaitable = false := by
    rintro (_ | x) s w hw
    · obtain rfl : w = .null := hw
      rfl
    · obtain ⟨_, _, ref, rfl, _⟩ := hw
      rfl
  refine (plain_contact hcontact htarget hrules hclear.contact).returns_series hrules rfl hv
    (fun _ ↦ ?_) ?_
  · simp [contactRules]
  · simp only [contactRules, List.forall_mem_cons, List.not_mem_nil, false_implies, implies_true,
      and_true, String.reduceEq, true_implies, true_and]
    refine ⟨hcopy hc.firstName, hcopy hc.surname, fun r hr ↦ ?_, fun r hr ↦ ?_, fun r hr ↦ ?_⟩
    · rw [Rule.evaluate_plain hr]
      exact (returns_phone hc hcode hphone).andThen_await fun _ _ hw ↦ hw ▸ rfl
    · rw [Rule.evaluate_plain hr]
      exact (Surroundings.Returns.read (hread hc.home_field)
        (AddressService.returns_transform hclear.address hlookup ha hc.home hhome)).andThen_await
          hfalse
    · have hlist : List.Forall₂ s.HoldsAddress [business, shipping] [c.business, c.shipping] :=
        .cons hc.business (.cons hc.shipping .nil)
      have hknown : ∀ x ∈ [c.business, c.shipping], Directory.fateOf countries x = none :=
        List.forall_mem_map.mp (AddressService.raceFate_eq_none_iff.mp hothers)
      have hmany := AddressService.returns_transformMany hclear.address hlookup ha
        (List.cons_ne_nil _ _) hlist hknown
      rw [Rule.evaluate_plain hr]
      refine Surroundings.Returns.andThen_await (Surroundings.Returns.read (hread hc.business_field)
        (Surroundings.Returns.read (hread hc.shipping_field) hmany)) ?_
      rintro _ _ ⟨_, _, rfl, _⟩
      rfl

/-- Where nothing fails, a customer is mapped to its form. -/
theorem returns_mapper {service : CustomerService} {customers : List (Value × Value)}
    (hservice : service.IsMade customers addresses) :
    s.standing.Returns (fun s w ↦ s.IsCustomerForm countries c code w)
      (service.mapper.transform v).asCoroutine := by
  obtain ⟨contact, b, owner, owner', hcontact, htarget, hrules, hb, htarget', hrules', hmapper,
    _⟩ := hservice
  have hv : v ≠ .null := hc.ne_null
  rw [hmapper]
  refine Surroundings.Returns.asCoroutine ?_
  refine (plain_customer hb htarget' hrules' hclear.contact hclear.customer).returns_series hrules'
    rfl hv (fun _ ↦ ?_) ?_
  · simp [customerRules]
  · simp only [customerRules, List.forall_mem_cons, List.not_mem_nil, false_implies, implies_true,
      and_true, String.reduceEq, true_implies, true_and]
    refine ⟨fun r hr ↦ ?_, fun r hr ↦ ?_, fun r hr ↦ ?_⟩
    · rw [hc.record]
      exact AddressService.returns_copy hc.number rfl _ hr
    · rw [Rule.evaluate_plain hr]
      exact (returns_joined hc).andThen_await fun _ _ hw ↦ hw ▸ rfl
    · rw [Rule.evaluate_asynchronous hr]
      exact (returns_contact hclear hlookup ha hc hcode hphone hhome hothers hcontact htarget
        hrules).asCoroutine

omit hclear hlookup ha hc hcode hphone hhome hothers in
/-- The form of a customer has a list of other addresses, which is counted. -/
theorem exists_otherCount {s : Store} {dto : Value} (h : s.IsCustomerForm countries c code dto) :
    ∃ count, otherCount dto s = (.ok count, s) := by
  obtain ⟨_, _, hparts⟩ := h
  simp only [List.forall_mem_cons, List.not_mem_nil, false_implies, implies_true,
    and_true] at hparts
  obtain ⟨contact, hcontact, hform⟩ := hparts.2.2
  obtain ⟨_, _, hinner⟩ := hform
  simp only [List.forall_mem_cons, List.not_mem_nil, false_implies, implies_true,
    and_true] at hinner
  obtain ⟨_, hothers, id, items, rfl, _⟩ := hinner.2.2.2.2
  refine ⟨.int items.length, ?_⟩
  rw [otherCount, Action.bind, Store.readAttribute_eq, hcontact]
  dsimp only
  rw [Action.bind, Store.readAttribute_eq, hothers]
  rfl

/-- Where nothing fails, the customer with a number is mapped to its form. -/
theorem returns_getById {service : CustomerService} {entries : List (ℤ × Value)} {n : ℤ}
    (hservice : service.IsMade (entries.map fun entry ↦ (.int entry.1, entry.2)) addresses)
    (hentry : entries.lookup n = some v) :
    s.standing.Returns (fun s w ↦ s.IsCustomerForm countries c code w)
      (service.getById (.int n)) := by
  have hmapped := returns_mapper hclear hlookup ha hc hcode hphone hhome hothers hservice
  have htold : s.standing.Returns (fun s w ↦ s.IsCustomerForm countries c code w)
      ((service.mapper.transform v).asCoroutine.andThen (tell (.int n))).asCoroutine := by
    refine (hmapped.echo fun m dto hm hdto ↦ ?_).asCoroutine
    obtain ⟨count, hcount⟩ := exists_otherCount hdto
    refine ⟨{ m with store := { m.store with log := m.store.log ++ [mappedEntry (.int n) count] } },
      ?_, s.standing.stable hm (Plan.sameBelow_log _ _ _), rfl, rfl⟩
    rw [tell, Prog.first, Machine.run_act, Machine.act, hcount]
    rfl
  have hv : v ≠ .null := hc.ne_null
  exact Surroundings.Yields.lead fun m hm ↦ ⟨_, _, run_getById hservice.customers_eq hentry hv m,
    s.standing.stable hm (Plan.sameBelow_log _ _ _), ⟨rfl, rfl⟩, htold⟩

end Mapper

end CustomerService

end Recast
