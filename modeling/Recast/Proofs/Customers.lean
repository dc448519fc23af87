import Recast.Proofs.Addresses

/-!
What becomes of a customer that is mapped. The phone number is made with the dialling code of the
home country, which is looked at first (`CustomerService.phone_eq`), and all addresses are looked
up, also when the phone number is missing. The mapper of customers is made of two; it fails as the
phone number, the home address and the other addresses do, in this order
(`CustomerService.errand_mapper`), and so does the call for a customer
(`CustomerService.errand_getById`).
-/

set_option autoImplicit false

namespace Recast

/-! ### Customers -/

/-- What is mapped of a validated customer. -/
structure Customer where
  number : ℤ
  joined : Moment
  firstName : String
  surname : String
  phone : String
  home : Option Address
  business : Option Address
  shipping : Option Address

/-- The value is a record of a validated customer. -/
structure Store.IsCustomer (s : Store) (v : Value) (c : Customer) (ref : ℕ)
    (home business shipping : Value) : Prop where
  record : v = .record ref "Customer"
  number : s.field? ref "customer_number" = some (.int c.number)
  joined : s.field? ref "date_joined" = some (.moment c.joined)
  firstName : s.field? ref "first_name" = some (.text c.firstName)
  surname : s.field? ref "surname" = some (.text c.surname)
  phone : s.field? ref "phone_number" = some (.text c.phone)
  home_field : s.field? ref "home_address" = some home
  business_field : s.field? ref "business_address" = some business
  shipping_field : s.field? ref "shipping_address" = some shipping
  home : s.HoldsAddress home c.home
  business : s.HoldsAddress business c.business
  shipping : s.HoldsAddress shipping c.shipping

theorem Store.IsCustomer.ne_null {s : Store} {v : Value} {c : Customer} {ref : ℕ}
    {home business shipping : Value} (h : s.IsCustomer v c ref home business shipping) :
    v ≠ .null := by
  rw [h.record]
  intro hnull
  cases hnull

namespace Customer

/-- The dialling codes by country. -/
def diallingCodes : List (ℤ × String) := [(1, "66"), (2, "44")]

/-- The business and shipping addresses that are present. -/
def others (c : Customer) : List Address := [c.business, c.shipping].filterMap id

/-- The country whose dialling code counts; no country has the number zero. -/
def homeCountry (c : Customer) : ℤ :=
  match c.home with
  | some x => x.country
  | none => 0

/-- The phone number in international form: without the trunk digit, behind the code. -/
def international (c : Customer) (code : String) : String :=
  "+" ++ code ++ String.ofList (c.phone.toList.drop 1)

/-- No dialling code is known for a country. -/
def unknownCode (n : ℤ) : Fault :=
  Fault.mappingField "phone_number" ("No dialling code for country " ++ toString n ++ ".")
    [("country_id", .int n)]

/-- Whether the phone number cannot be mapped. -/
def phoneFate (c : Customer) : Fate :=
  match diallingCodes.lookup c.homeCountry with
  | none => some fun e ↦ e.fault = unknownCode c.homeCountry
  | some _ => if c.phone = "" then some fun e ↦ e.fault = Phone.emptyNumber else none

/-- How mapping the business and shipping addresses ends. -/
def othersFate (countries : List (ℤ × String)) (c : Customer) : Fate :=
  AddressService.raceFate ([c.business, c.shipping].map (Directory.fateOf countries))

/-- How mapping a customer ends: the phone number decides, else the home address, else the others.
-/
def fate (countries : List (ℤ × String)) (c : Customer) : Fate :=
  c.phoneFate.or ((Directory.fateOf countries c.home).or (c.othersFate countries))

/-- The countries of the addresses that are present. -/
def lookups (c : Customer) : Multiset Value :=
  ([c.home, c.business, c.shipping].map Address.lookups).sum

end Customer

namespace CustomerService

section Computes

variable {s : Store} {m : Machine} {v home business shipping : Value} {c : Customer} {ref : ℕ}

theorem readAttribute_eq (hm : s.Stands m) {name : String} {w : Value}
    (h : s.field? ref name = some w) (type : String) :
    Action.readAttribute (.record ref type) name m.store = (.ok w, m.store) := by
  rw [Store.readAttribute_eq, hm.attribute?_eq h type]

/-- What goes on with an attribute goes on with its value. -/
theorem bind_readAttribute {α : Type} (hm : s.Stands m) {name : String} {w : Value}
    (h : s.field? ref name = some w) (type : String) (f : Value → Action α) :
    Action.bind (Action.readAttribute (.record ref type) name) f m.store = f w m.store := by
  rw [Action.bind, readAttribute_eq hm h type]

theorem homeCountry_eq (hm : s.Stands m) (hc : s.IsCustomer v c ref home business shipping) :
    homeCountry v m.store = (.ok (.int c.homeCountry), m.store) := by
  have hhome := hc.home
  rw [hc.record, homeCountry, bind_readAttribute hm hc.home_field, Customer.homeCountry]
  cases hx : c.home with
  | none =>
    rw [hx] at hhome
    obtain rfl : home = .null := hhome
    rfl
  | some x =>
    rw [hx] at hhome
    obtain ⟨place, rfl, _, _, _, _, hcountry⟩ := hhome
    have htruth : (Value.record place "Address").truth = true := rfl
    rw [if_pos htruth, bind_readAttribute hm hc.home_field, readAttribute_eq hm hcountry]

/-- The phone number of a customer. The country is checked first. -/
theorem phone_eq (hm : s.Stands m) (hc : s.IsCustomer v c ref home business shipping) :
    phone v m.store =
      match Customer.diallingCodes.lookup c.homeCountry with
      | none => Action.fail (Customer.unknownCode c.homeCountry) m.store
      | some code =>
        if c.phone = "" then Action.fail Phone.emptyNumber m.store
        else (.ok (.text (c.international code)), m.store) := by
  have hcodes : Value.lookup Phone.diallingCodes (.int c.homeCountry) =
      (Customer.diallingCodes.lookup c.homeCountry).map .text :=
    Value.lookup_map_int .text Customer.diallingCodes c.homeCountry
  have hhashable : m.store.unhashable? (.int c.homeCountry) = none := rfl
  have htruth : (Value.text c.phone).truth = !c.phone.isEmpty := rfl
  rw [phone, Action.bind, homeCountry_eq hm hc, hc.record]
  dsimp only
  rw [bind_readAttribute hm hc.phone, Phone.international, hhashable]
  dsimp only
  rw [hcodes, htruth]
  cases Customer.diallingCodes.lookup c.homeCountry with
  | none => rfl
  | some code =>
    have hpresent : (!c.phone.isEmpty) = true ↔ ¬ c.phone = "" := by simp
    simp only [Option.map_some, hpresent, ite_not]
    split_ifs <;> rfl

theorem instant_phone (hc : s.IsCustomer v c ref home business shipping) :
    s.Instant c.phoneFate.Met (Prog.ofAction (phone v)) := by
  intro m hm
  rw [Machine.run_ofAction, Machine.act, phone_eq hm hc, Customer.phoneFate]
  cases Customer.diallingCodes.lookup c.homeCountry with
  | none => exact ⟨_, _, rfl, Store.sameBelow_count _ _, Fate.met_fault rfl fun _ hf ↦ by cases hf⟩
  | some code =>
    by_cases hphone : c.phone = ""
    · simp only [hphone, if_true]
      exact ⟨_, _, rfl, Store.sameBelow_count _ _, Fate.met_fault rfl fun _ hf ↦ by cases hf⟩
    · simp only [hphone, if_false]
      exact ⟨m.store, _, rfl, .refl _ _, Fate.met_text _⟩

theorem instant_joined (hc : s.IsCustomer v c ref home business shipping) :
    s.Instant (Fate.Met none) (Prog.ofAction (joined v)) := by
  intro m hm
  rw [Machine.run_ofAction, Machine.act, hc.record, joined, bind_readAttribute hm hc.joined]
  exact ⟨m.store, _, rfl, .refl _ _, Fate.met_text _⟩

end Computes

/-- The service is made of a mapper of contact details within a mapper of customers. -/
def IsMade (service : CustomerService) (customers : List (Value × Value))
    (addresses : AddressService) : Prop :=
  ∃ (contact b : Builder) (owner owner' : ℕ), contact.Registered ∧ contact.target = "ContactDto" ∧
    contact.rules = Rule.series owner 0 (contactRules addresses) ∧ b.Registered ∧
    b.target = "CustomerDto" ∧ b.rules = Rule.series owner' 0 (customerRules contact.snapshot) ∧
    service.mapper = b.snapshot ∧ service.customers = customers

theorem IsMade.customers_eq {service : CustomerService} {customers : List (Value × Value)}
    {addresses : AddressService} (h : service.IsMade customers addresses) :
    service.customers = customers := by
  obtain ⟨_, _, _, _, _, _, _, _, _, _, _, hcustomers⟩ := h
  exact hcustomers

theorem exists_make (customers : List (Value × Value)) (addresses : AddressService) (s : Store) :
    ∃ service s', make customers addresses s = (.ok service, s') ∧
      service.IsMade customers addresses ∧ s.SameBelow s.records.size s' := by
  have hparse : ∀ entry ∈ contactRules addresses,
      Slot.parseAs .field (.text entry.1) = .ok ⟨[entry.1]⟩ := by
    simp only [contactRules, List.forall_mem_cons, List.not_mem_nil, false_implies, implies_true,
      and_true]
    exact ⟨rfl, rfl, rfl, rfl, rfl⟩
  obtain ⟨contact, log, hregister, hcontact, htarget, hrules⟩ := Builder.exists_registerFields_empty
    Model.customer.name Model.contactDto.name hparse (by simp [contactRules]) s.nextId
    { s with nextId := s.nextId + 1 }
  let s₁ : Store :=
    { s with nextId := s.nextId + 1, log := log ++ [contact.buildEntry true] }
  have hparse' : ∀ entry ∈ customerRules contact.snapshot,
      Slot.parseAs .field (.text entry.1) = .ok ⟨[entry.1]⟩ := by
    simp only [customerRules, List.forall_mem_cons, List.not_mem_nil, false_implies, implies_true,
      and_true]
    exact ⟨rfl, rfl, rfl⟩
  obtain ⟨b, log', hregister', hb, htarget', hrules'⟩ := Builder.exists_registerFields_empty
    Model.customer.name Model.customerDto.name hparse' (by simp [customerRules]) s₁.nextId
    { s₁ with nextId := s₁.nextId + 1 }
  have hne : contact.rules ≠ [] := hrules ▸ nofun
  have hne' : b.rules ≠ [] := hrules' ▸ nofun
  have hfresh : ∀ s : Store, Action.fresh s = (.ok s.nextId, { s with nextId := s.nextId + 1 }) :=
    fun _ ↦ rfl
  have hbelow : s.SameBelow s.records.size s₁ :=
    (Store.sameBelow_count _ s).trans (Plan.sameBelow_log _ _ _)
  refine ⟨⟨customers, b.snapshot⟩,
    { s₁ with nextId := s₁.nextId + 1, log := log' ++ [b.buildEntry true] }, ?_,
    ⟨contact, b, s.nextId, s₁.nextId, hcontact, htarget, hrules, hb, htarget', hrules', rfl, rfl⟩,
    hbelow.trans ((Store.sameBelow_count _ s₁).trans (Plan.sameBelow_log _ _ _))⟩
  rw [make, Action.bind, hfresh]
  dsimp only
  rw [Action.bind, hregister]
  dsimp only
  rw [Action.bind, Builder.buildLogged_eq hne]
  dsimp only
  rw [Action.bind, hfresh]
  dsimp only
  rw [Action.bind, hregister']
  dsimp only
  rw [Action.bind, Builder.buildLogged_eq hne']
  rfl

/-! ### Errands -/

section Errands

variable {s : Store} {leaves : Prop} {countries : List (ℤ × String)} {lookup : CountryLookup}
  {addresses : AddressService} {v home business shipping : Value} {c : Customer} {ref : ℕ}

/-- What the rule for an attribute of the contact details ends in. -/
def contactFate (countries : List (ℤ × String)) (c : Customer) (name : String) : Fate :=
  if name = "phone_number" then c.phoneFate
  else if name = "home_address" then Directory.fateOf countries c.home
  else if name = "other_addresses" then c.othersFate countries
  else none

/-- What the rule for an attribute of the contact details looks up. -/
def contactLookups (c : Customer) (name : String) : Multiset Value :=
  if name = "home_address" then Address.lookups c.home
  else if name = "other_addresses" then ([c.business, c.shipping].map Address.lookups).sum
  else 0

/-- The turns that the rule for an attribute of the contact details takes at most. -/
def contactTurns (name : String) : ℕ :=
  if name = "home_address" then 8 else if name = "other_addresses" then 15 else 1

/-- What the rule for an attribute of the customer ends in. -/
def customerFate (countries : List (ℤ × String)) (c : Customer) (name : String) : Fate :=
  if name = "contact" then c.fate countries else none

/-- What the rule for an attribute of the customer looks up. -/
def customerLookups (c : Customer) (name : String) : Multiset Value :=
  if name = "contact" then c.lookups else 0

/-- The turns that the rule for an attribute of the customer takes at most. -/
def customerTurns (name : String) : ℕ := if name = "contact" then 27 else 1

theorem errand_contactRule (hclear : s.type? "AddressDto" = none)
    (hlookup : (Directory.ofCountries countries).ToldBy lookup) (ha : addresses.IsMade lookup)
    (hc : s.IsCustomer v c ref home business shipping)
    (hleaves : c.othersFate countries ≠ none → leaves) :
    ∀ entry ∈ contactRules addresses, ∀ r : Rule, r.compute = entry.2 →
      Errand s leaves (contactFate countries c entry.1).Met (contactTurns entry.1)
        (contactLookups c entry.1) (.fresh (r.evaluate v)) := by
  have hcopy : ∀ {name : String} {t : String}, s.field? ref name = some (.text t) →
      ∀ r : Rule, r.compute = AddressService.copy name →
        Errand s leaves (Fate.Met none) 1 0 (.fresh (r.evaluate v)) := by
    intro name t h r hr
    rw [hc.record]
    exact Errand.of_instant (AddressService.instant_copy h (Fate.met_text t) "Customer" hr)
  have hread : ∀ {name : String} {w : Value}, s.field? ref name = some w → ∀ f,
      s.Leads (Prog.first (Action.readAttribute v name) f) (f w) := by
    intro name w h f
    rw [hc.record]
    exact .read (fun m hm ↦ hm.attribute?_eq h "Customer") f
  simp only [contactRules, List.forall_mem_cons, List.not_mem_nil, false_implies, implies_true,
    and_true]
  refine ⟨hcopy hc.firstName, hcopy hc.surname, fun r hr ↦ ?_, fun r hr ↦ ?_, fun r hr ↦ ?_⟩
  · rw [Rule.evaluate_plain hr]
    exact (Errand.of_instant (instant_phone hc)).andThen_await
  · rw [Rule.evaluate_plain hr]
    have haddress : Errand s leaves (Directory.fateOf countries c.home).Met 8
        (Address.lookups c.home) (.fresh (addresses.transform home).asCoroutine) :=
      AddressService.errand_transform hclear hlookup ha hc.home
    exact ((hread hc.home_field _).errand haddress).andThen_await
  · rw [Rule.evaluate_plain hr]
    have hothers : List.Forall₂ s.HoldsAddress [business, shipping] [c.business, c.shipping] :=
      .cons hc.business (.cons hc.shipping .nil)
    have hmany : Errand s leaves (c.othersFate countries).Met 15
        ([c.business, c.shipping].map Address.lookups).sum
        (.fresh (addresses.transformMany [business, shipping]).asCoroutine) :=
      AddressService.errand_transformMany hclear hlookup ha (List.cons_ne_nil _ _) hothers hleaves
    exact ((hread hc.business_field _).errand
      ((hread hc.shipping_field _).errand hmany)).andThen_await

theorem plain_contact {contact : Builder} {owner : ℕ} (hcontact : contact.Registered)
    (htarget : contact.target = "ContactDto")
    (hrules : contact.rules = Rule.series owner 0 (contactRules addresses))
    (hclear : s.type? "ContactDto" = none) :
    contact.Plain s (.leaf s.types "ContactDto" (Store.contactFields 0)) := by
  have hmakes : s.standing.Makes contact.target
      (.leaf s.types "ContactDto" (Store.contactFields 0)) := by
    rw [htarget]
    exact Store.makes_contactDto hclear
  refine .of_series hcontact hrules nofun hmakes ?_
  simp only [contactRules, List.forall_mem_cons, List.not_mem_nil, false_implies, implies_true,
    and_true]
  refine ⟨?_, ?_, ?_, ?_, ?_⟩ <;> exact Pattern.refusal?_eq_none Model.contactDto rfl hclear rfl rfl

theorem plain_customer {b inner : Builder} {owner : ℕ} (hb : b.Registered)
    (htarget : b.target = "CustomerDto")
    (hrules : b.rules = Rule.series owner 0 (customerRules inner.snapshot))
    (hclear : s.type? "ContactDto" = none) (hclear' : s.type? "CustomerDto" = none) :
    b.Plain s (Store.customerPattern s.types) := by
  have hmakes : s.standing.Makes b.target (Store.customerPattern s.types) := by
    rw [htarget]
    exact Store.makes_customerDto hclear hclear'
  refine .of_series hb hrules nofun hmakes ?_
  simp only [customerRules, List.forall_mem_cons, List.not_mem_nil, false_implies, implies_true,
    and_true]
  refine ⟨?_, ?_, ?_⟩ <;> exact Pattern.refusal?_eq_none Model.customerDto rfl hclear' rfl rfl

end Errands

end CustomerService

/-- No declared type hides a form for clients. -/
structure Store.IsClear (s : Store) : Prop where
  address : s.type? "AddressDto" = none
  contact : s.type? "ContactDto" = none
  customer : s.type? "CustomerDto" = none

namespace CustomerService

section Call

variable {s : Store} {leaves : Prop} {countries : List (ℤ × String)} {lookup : CountryLookup}
  {addresses : AddressService} {v home business shipping : Value} {c : Customer} {ref : ℕ}
  {service : CustomerService} {customers : List (Value × Value)}
  (hclear : s.IsClear) (hlookup : (Directory.ofCountries countries).ToldBy lookup)
  (ha : addresses.IsMade lookup) (hservice : service.IsMade customers addresses)

include hclear hlookup ha hservice

/-- A customer is mapped by looking up each address that is present once, and the phone number, the
home address and the other addresses decide in this order whether that fails. -/
theorem errand_mapper (hc : s.IsCustomer v c ref home business shipping)
    (hleaves : c.othersFate countries ≠ none → leaves) :
    Errand s leaves (c.fate countries).Met 30 c.lookups
      (.fresh (service.mapper.transform v).asCoroutine) := by
  obtain ⟨contact, b, owner, owner', hcontact, htarget, hrules, hb, htarget', hrules', hmapper,
    _⟩ := hservice
  have hv : v ≠ .null := hc.ne_null
  have hcontactFate : ((contactRules addresses).findSome? fun entry ↦
      contactFate countries c entry.1) = c.fate countries := by
    simp only [contactRules, contactFate, List.findSome?_cons, List.findSome?_nil, String.reduceEq,
      if_false, if_true, Customer.fate]
    cases c.phoneFate <;> cases Directory.fateOf countries c.home <;>
      cases c.othersFate countries <;> rfl
  have hcontactLookups : ((contactRules addresses).map fun entry ↦ contactLookups c entry.1).sum =
      c.lookups := by
    simp [contactRules, contactLookups, Customer.lookups]
  have hinner : Errand s leaves (c.fate countries).Met 27 c.lookups
      (.fresh (contact.snapshot.transform v)) := by
    have hplain := plain_contact hcontact htarget hrules hclear.contact
    have htransform := hplain.errand_series hrules hv
      (errand_contactRule hclear.address hlookup ha hc hleaves)
    rw [hcontactFate, hcontactLookups] at htransform
    exact htransform
  have hcomputes : ∀ entry ∈ customerRules contact.snapshot, ∀ r : Rule, r.compute = entry.2 →
      Errand s leaves (customerFate countries c entry.1).Met (customerTurns entry.1)
        (customerLookups c entry.1) (.fresh (r.evaluate v)) := by
    simp only [customerRules, List.forall_mem_cons, List.not_mem_nil, false_implies, implies_true,
      and_true]
    refine ⟨fun r hr ↦ ?_, fun r hr ↦ ?_, fun r hr ↦ ?_⟩
    · rw [hc.record]
      exact Errand.of_instant (AddressService.instant_copy hc.number (Fate.met_int _) "Customer" hr)
    · rw [Rule.evaluate_plain hr]
      exact (Errand.of_instant (instant_joined hc)).andThen_await
    · rw [Rule.evaluate_asynchronous hr]
      exact hinner.asCoroutine
  have houter := (plain_customer hb htarget' hrules' hclear.contact hclear.customer).errand_series
    hrules' hv hcomputes
  have hfate : ((customerRules contact.snapshot).findSome? fun entry ↦
      customerFate countries c entry.1) = c.fate countries := by
    simp only [customerRules, customerFate, List.findSome?_cons, List.findSome?_nil,
      String.reduceEq, if_false, if_true]
    cases c.fate countries <;> rfl
  have hlookups : ((customerRules contact.snapshot).map fun entry ↦
      customerLookups c entry.1).sum = c.lookups := by
    simp [customerRules, customerLookups]
  rw [hfate, hlookups] at houter
  rw [hmapper]
  exact houter.asCoroutine

end Call

/-- The fault of a number that no customer has. -/
def unknownNumber (n : ℤ) : Fault :=
  Fault.notFound ("Customer " ++ toString n ++ " not found.") [("customer_id", .int n)]

/-- If the fate is a fault, it is met. -/
def FailsAs (fate : Fate) (o : Outcome) : Prop := fate ≠ none → fate.Met o

theorem instant_guarded (fate : Fate) (s : Store) {o : Outcome} (ho : FailsAs fate o) :
    s.Instant (FailsAs fate) (Prog.guarded o) := by
  by_cases hfate : fate = none
  · have hany : ∀ o, FailsAs fate o := fun _ hne ↦ absurd hfate hne
    unfold Prog.guarded
    split
    · exact fun m _ ↦ ⟨_, _, rfl, Store.sameBelow_count _ _, hany _⟩
    · exact Store.instant_done (hany _)
  · intro m hm
    obtain ⟨s', o', hrun, hbelow, ho'⟩ := (ho hfate).instant_guarded m hm
    exact ⟨s', o', hrun, hbelow, fun _ ↦ ho'⟩

section Load

variable {s : Store} {service : CustomerService} {entries : List (ℤ × Value)} {n : ℤ}

theorem load_eq (hservice : service.customers = entries.map fun entry ↦ (.int entry.1, entry.2))
    (n : ℤ) (s : Store) : service.load (.int n) s =
      match (entries.lookup n).getD .null with
      | .null => Action.fail (unknownNumber n) s
      | v => (.ok v, { s with log := s.log ++ [loadedEntry (.int n)] }) := by
  have hfound : Value.lookup service.customers (.int n) = entries.lookup n := by
    rw [hservice]
    exact (Value.lookup_map_int id entries n).trans (by cases entries.lookup n <;> rfl)
  have hhashable : s.unhashable? (.int n) = none := rfl
  rw [load, hhashable]
  dsimp only
  rw [hfound]
  cases (entries.lookup n).getD .null <;> rfl

theorem addsFrom_otherCount (dto : Value) (base : ℕ) : Action.AddsFrom base (otherCount dto) := by
  have hread := Action.stays_readAttribute (Store.growth_sameBelow base)
  refine Action.addsFrom_bind (hread dto "contact") fun contact ↦
    Action.addsFrom_bind (hread contact "other_addresses") fun others ↦ ?_
  cases others <;> first
    | exact Action.addsFrom_done _
    | exact Action.addsFrom_fail _

/-- What follows when a customer was mapped. -/
def tell (number : Value) (dto : Value) : Prog :=
  Prog.first (otherCount dto) fun count ↦
    Prog.also (Action.report (mappedEntry number count)) (Prog.give dto)

theorem instant_tell (number : Value) {fate : Fate} {o : Outcome} (ho : fate.Met o) :
    s.Instant (FailsAs fate) (Prog.onward (tell number) o) := by
  cases o with
  | error e => exact Store.instant_done fun _ ↦ ho
  | ok dto =>
    have hany : ∀ o, FailsAs fate o := fun _ hne ↦ absurd ho.eq_none hne
    intro m hm
    have hbelow := addsFrom_otherCount dto s.records.size m.store hm.size_le
    rcases hcount : otherCount dto m.store with ⟨e | count, s'⟩
    · rw [hcount] at hbelow
      refine ⟨s', .error e, ?_, hbelow, hany _⟩
      rw [Prog.onward, tell, Prog.first, Machine.run_act, Machine.act, hcount]
      rfl
    · rw [hcount] at hbelow
      refine ⟨{ s' with log := s'.log ++ [mappedEntry number count] }, .ok dto, ?_,
        hbelow.trans (Plan.sameBelow_log _ _ _), hany _⟩
      rw [Prog.onward, tell, Prog.first, Machine.run_act, Machine.act, hcount]
      rfl

end Load

section GetById

variable {s : Store} {leaves : Prop} {countries : List (ℤ × String)} {lookup : CountryLookup}
  {addresses : AddressService} {v home business shipping : Value} {c : Customer} {ref : ℕ}
  {service : CustomerService} {entries : List (ℤ × Value)} {n : ℤ}

theorem getById_eq (service : CustomerService) (number : Value) :
    service.getById number = (Prog.first (service.load number) fun customer ↦
      (service.mapper.transform customer).asCoroutine.andThen (tell number)).asCoroutine := rfl

variable (hservice : service.customers = entries.map fun entry ↦ (.int entry.1, entry.2))

include hservice

/-- When a customer that is stored was loaded, it is mapped. -/
theorem run_getById (hentry : entries.lookup n = some v) (hv : v ≠ .null) (m : Machine) :
    m.run (service.getById (.int n)) =
      Machine.run ((service.mapper.transform v).asCoroutine.andThen (tell (.int n))).asCoroutine
        { m with store := { m.store with log := m.store.log ++ [loadedEntry (.int n)] } } := by
  have hload : service.load (.int n) m.store =
      (.ok v, { m.store with log := m.store.log ++ [loadedEntry (.int n)] }) := by
    rw [load_eq hservice, hentry]
    cases v with
    | null => exact absurd rfl hv
    | _ => rfl
  rw [getById_eq, Prog.asCoroutine, Machine.run_bind, Prog.first, Machine.run_act, Machine.act,
    hload, Prog.asCoroutine, Machine.run_bind]

theorem leads_getById (hentry : entries.lookup n = some v) (hv : v ≠ .null) :
    s.Leads (service.getById (.int n))
      ((service.mapper.transform v).asCoroutine.andThen (tell (.int n))).asCoroutine :=
  fun m _ ↦ ⟨_, run_getById hservice hentry hv m, Plan.sameBelow_log _ _ _⟩

/-- A number that no customer has is refused at once. -/
theorem instant_getById (hentry : entries.lookup n = none) :
    s.Instant (Fate.Met (some fun e ↦ e.fault = unknownNumber n)) (service.getById (.int n)) := by
  intro m _
  have hload : service.load (.int n) m.store = Action.fail (unknownNumber n) m.store := by
    rw [load_eq hservice, hentry]
    rfl
  refine ⟨{ m.store with nextId := m.store.nextId + 1 },
    .error ⟨m.store.nextId, unknownNumber n⟩, ?_, Store.sameBelow_count _ _,
    Fate.met_fault rfl nofun⟩
  rw [getById_eq, Prog.asCoroutine, Machine.run_bind, Prog.first, Machine.run_act, Machine.act,
    hload]
  rfl

omit hservice in
/-- The customer with a number is mapped: each address that is present is looked up once, and the
phone number, the home address and the other addresses decide whether the call fails. -/
theorem errand_getById (hclear : s.IsClear)
    (hlookup : (Directory.ofCountries countries).ToldBy lookup) (ha : addresses.IsMade lookup)
    (hservice : service.IsMade (entries.map fun entry ↦ (.int entry.1, entry.2)) addresses)
    (hentry : entries.lookup n = some v) (hc : s.IsCustomer v c ref home business shipping)
    (hleaves : c.othersFate countries ≠ none → leaves) :
    Errand s leaves (FailsAs (c.fate countries)) 30 c.lookups
      (.fresh (service.getById (.int n))) := by
  have hmapped : Errand s leaves _ _ _ _ := errand_mapper hclear hlookup ha hservice hc hleaves
  have htold := (hmapped.bind rfl fun _ ho ↦ instant_tell (.int n) ho).bind rfl fun _ ho ↦
    instant_guarded _ s ho
  exact (leads_getById hservice.customers_eq hentry (hc.ne_null)).errand htold

end GetById

end CustomerService

end Recast
