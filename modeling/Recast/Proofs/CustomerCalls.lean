import Recast.Proofs.Contents

/-!
Calls for customers. Where nothing else goes on, a call on an errand is completed, and what it has
left behind begins no more lookups (`Errand.complete`, `Errand.Out.Ended.beginsNoMore`). Validated
customers have all the data that is mapped (`Store.Fits.exists_customer`), so how the call for one
ends is told by its data and the table of countries alone (`Customer.Answered`); the times that
lookups take have no part in it (`CustomerService.getById_answers`). The day of joining is written
with a year of four digits from the year 1000 on (`Moment.dayMonthYear_eq_fullDate`), but not before
(`Sample.year_before_1000`).
-/

set_option autoImplicit false

namespace Recast

/-! ### Calls by themselves -/

namespace Machine

/-- Nothing else goes on. -/
structure IsIdle (m : Machine) : Prop where
  tasks : m.tasks = #[]
  strays : m.strays = []

/-- However long one waits, no more lookups begin. -/
def BeginsNoMore (m : Machine) : Prop :=
  ∀ ms, (m.complete (.sleep ms .done)).2.2.store.lookups = m.store.lookups

theorem IsIdle.stands {m : Machine} (h : m.IsIdle) : m.store.Stands m :=
  ⟨rfl, rfl, h.tasks, le_rfl, fun _ _ ↦ rfl⟩

end Machine

/-- Some state of a discipline is kept when the process takes a turn. -/
theorem Surroundings.exists_abides_advance {c : Surroundings}
    {result : Machine → Outcome → Prop} {m : Machine} {p : Proc} (hm : c.holds m)
    (h : ∃ own, c.Abides result p own m) :
    ∃ own, c.Abides result (Machine.advance p m).2 own (Machine.advance p m).1 := by
  have hmoves : ∀ t, Machine.Moves (m, p) t → c.holds t.1 ∧ ∃ own, c.Abides result t.2 own t.1 := by
    intro t hmoves
    induction hmoves with
    | refl => exact ⟨hm, h⟩
    | tail _ hmove ih =>
      obtain ⟨hholds, own, hbefore⟩ := ih
      obtain ⟨hholds', _, hnext⟩ := (c.discipline_abides result).move hbefore hholds hmove
      exact ⟨hholds', _, hnext⟩
  exact (hmoves _ (Machine.advance_moves p m)).2

section Call

variable {leaves : Prop} {result : Outcome → Prop} {content : Machine → Outcome → Prop}
  {turns : ℕ} {todo : Multiset Value} {m : Machine}

/-- A call on an errand ends where nothing else goes on. -/
theorem Errand.exists_settlesWithin {prog : Prog}
    (h : Errand m.store leaves result turns todo (.fresh prog)) (hm : m.IsIdle)
    (hcontent : ¬ leaves → m.store.standing.Yields content prog) :
    ∃ m' o, m.SettlesWithin (.fresh prog) m.store.now (2 * turns + 1) m' o ∧
      Out.Ended m.store leaves result
        (fun m' p ↦ ∃ own, m.store.standing.Abides content p own m') turns todo m m' o := by
  have hout : Out m.store leaves result
      (fun m' p ↦ ∃ own, m.store.standing.Abides content p own m') turns todo m (.fresh prog) :=
    ⟨hm.stands, ⟨turns, [], h, nofun, hm.strays, rfl⟩,
      fun hnot ↦ ⟨hm.strays, ∅, (hcontent hnot).abides hm.stands⟩⟩
  exact hout.settles m.store.now
    (fun m' p hm' h ↦ Surroundings.exists_abides_advance hm' h)
    (fun m' p now hm' ⟨own, h⟩ ↦ ⟨own, (m.store.standing.discipline_abides content).undisturbed h
      hm' (hm'.later now) (.later m' own now)⟩) rfl

/-- It is completed if it ends within the rounds that a call may take. -/
theorem Errand.complete {prog : Prog} (h : Errand m.store leaves result turns todo (.fresh prog))
    (hm : m.IsIdle) (hcontent : ¬ leaves → m.store.standing.Yields content prog)
    (hturns : 2 * turns + 1 ≤ Machine.roundLimit) :
    Out.Ended m.store leaves result
      (fun m' p ↦ ∃ own, m.store.standing.Abides content p own m') turns todo m
      (m.complete prog).2.2 (m.complete prog).1 := by
  obtain ⟨m', o, hsettles, hended⟩ := h.exists_settlesWithin hm hcontent
  obtain ⟨rfl, rfl⟩ := hsettles.complete hturns
  exact hended

/-- Where nothing has been left behind, the content is what was promised. -/
theorem Errand.Out.Ended.keeps {m' : Machine} {o : Outcome} {total : ℕ}
    (h : Ended m.store leaves result
      (fun m' p ↦ ∃ own, m.store.standing.Abides content p own m') total todo m m' o)
    (hnot : ¬ leaves) : content m' o := by
  obtain ⟨_, own, habides⟩ := h.alone hnot
  exact (m.store.standing.discipline_abides content).ended habides h.stands

/-- However far it goes on, what has begun all its lookups begins no more. -/
theorem Errand.Out.lookups_settle {s : Store} {total : ℕ} {p : Proc}
    (h : Out s leaves result (fun _ _ ↦ True) total 0 m p) (began fuel : ℕ) :
    (Machine.settle fuel m (Machine.sole p began)).1.store.lookups = m.store.lookups := by
  induction fuel generalizing m p total with
  | zero => rfl
  | succ fuel ih =>
    cases hopen : p.isOpen with
    | false =>
      obtain ⟨o, rfl⟩ := Proc.isOpen_eq_false_iff.mp hopen
      rw [Machine.sole, Machine.settle_settled]
    | true =>
      cases hbusy : m.isBusy (Machine.sole p began) with
      | false =>
        obtain ⟨t, ht, _⟩ := h.exists_wake hopen began hbusy
        have hany : (Machine.sole p began).any Leg.isOpen = true := by
          simpa [Machine.sole, Leg.isOpen] using hopen
        rw [Machine.settle, hany, hbusy, Machine.nextTime?_sole, ht]
        exact ih (h.later (fun _ _ _ _ _ ↦ trivial) _)
      | true =>
        obtain ⟨begun, todo', _, _, htodo, hlookups, hnext⟩ :=
          h.round began (fun _ _ _ _ ↦ trivial) hbusy
        have hbegun : (begun : Multiset Value) = 0 :=
          Multiset.le_zero.mp (htodo ▸ Multiset.le_add_right _ _)
        obtain rfl : todo' = 0 := by rwa [hbegun, zero_add] at htodo
        rw [(Multiset.coe_eq_zero begun).mp hbegun, List.append_nil] at hlookups
        rw [Machine.settle_turn began hopen hbusy, ← hlookups]
        cases hq : (Machine.advance p m.background).2.isOpen with
        | true => exact ih hnext
        | false =>
          obtain ⟨o, ho⟩ := Proc.isOpen_eq_false_iff.mp hq
          rw [ho, Machine.settle_settled]

/-- What a call has left behind begins no more lookups. -/
theorem Errand.Out.Ended.beginsNoMore {s : Store} {fact : Machine → Proc → Prop} {total : ℕ}
    {m' : Machine} {o : Outcome} (h : Ended s leaves result fact total todo m m' o) :
    m'.BeginsNoMore := by
  intro ms
  obtain ⟨strays, habroad, hstrays, _⟩ := h.strays
  have hwaits : Errand s leaves (fun _ ↦ True) 2 0 (.fresh (.sleep ms .done)) :=
    Errand.sleep (Errand.of_instant (Store.instant_done trivial)) ms
  have hout : Out s leaves (fun _ ↦ True) (fun _ _ ↦ True) (2 + (strays.map Prod.snd).sum) 0 m'
      (.fresh (.sleep ms .done)) :=
    ⟨h.stands, ⟨2, strays, hwaits, habroad, hstrays, rfl⟩, fun hnot ↦ ⟨(h.alone hnot).1, trivial⟩⟩
  have hlookups := hout.lookups_settle m'.store.now Machine.roundLimit
  have hleg : [Leg.start (.sleep ms .done) m'.store.now none] =
      Machine.sole (.fresh (.sleep ms .done)) m'.store.now := rfl
  rw [Machine.complete, hleg, ← hlookups]
  rcases Machine.settle Machine.roundLimit m' _ with ⟨m'', _ | ⟨l, _ | ⟨l', rest⟩⟩⟩ <;> rfl

end Call

/-! ### Validated customers -/

/-- The value has a shape, as values have that were validated: so have the declared fields of a
record of a model. -/
inductive Store.Fits (s : Store) : Shape → Value → Prop
  | text (t : String) : Fits s .text (.text t)
  | integer (n : ℤ) : Fits s .integer (.int n)
  | moment (t : Moment) : Fits s .moment (.moment t)
  | absent (shape : Shape) : Fits s (.optional shape) .null
  | present {shape : Shape} {v : Value} (h : Fits s shape v) : Fits s (.optional shape) v
  | listOf {shape : Shape} {id : ℕ} {items : List Value} (h : ∀ v ∈ items, Fits s shape v) :
    Fits s (.listOf shape) (.list id items)
  | model {name : String} {extra : Bool} {fields : List (String × Shape × FieldDefault)} {ref : ℕ}
      (value : String → Value) (hfield : ∀ f ∈ fields, s.field? ref f.1 = some (value f.1))
      (h : ∀ f ∈ fields, Fits s f.2.1 (value f.1)) :
      Fits s (.model name extra fields) (.record ref name)

/-- The value is a record of a customer with this data. -/
def Store.IsStored (s : Store) (v : Value) (c : Customer) : Prop :=
  ∃ ref home business shipping, s.IsCustomer v c ref home business shipping

namespace Store.Fits

variable {s : Store} {v : Value}

theorem exists_text (h : s.Fits .text v) : ∃ t, v = .text t := by
  cases h
  exact ⟨_, rfl⟩

theorem exists_int (h : s.Fits .integer v) : ∃ n, v = .int n := by
  cases h
  exact ⟨_, rfl⟩

theorem exists_moment (h : s.Fits .moment v) : ∃ t, v = .moment t := by
  cases h
  exact ⟨_, rfl⟩

/-- The fields of a record of a model have the declared shapes. -/
theorem exists_fields {model : Model} (h : s.Fits model.shape v) :
    ∃ ref, v = .record ref model.name ∧
      ∀ f ∈ model.fields, ∃ w, s.field? ref f.1 = some w ∧ s.Fits f.2.1 w := by
  cases h with
  | model value hfield hfits => exact ⟨_, rfl, fun f hf ↦ ⟨_, hfield f hf, hfits f hf⟩⟩

/-- A record whose fields have the declared shapes fits the model. -/
theorem of_fields {model : Model} {ref : ℕ} {fields : List (String × Value)}
    (hrecord : s.records[ref]? = some ⟨model.name, fields⟩)
    (h : ∀ f ∈ model.fields, ∃ w, fields.lookup f.1 = some w ∧ s.Fits f.2.1 w) :
    s.Fits model.shape (.record ref model.name) := by
  have hfield : ∀ f ∈ model.fields, s.field? ref f.1 = some ((fields.lookup f.1).getD .null) ∧
      s.Fits f.2.1 ((fields.lookup f.1).getD .null) := by
    intro f hf
    obtain ⟨w, hw, hfits⟩ := h f hf
    rw [Store.field?, hrecord, hw]
    exact ⟨hw, hfits⟩
  exact .model (fun name ↦ (fields.lookup name).getD .null) (fun f hf ↦ (hfield f hf).1)
    fun f hf ↦ (hfield f hf).2

theorem exists_address (h : s.Fits Model.address.shape v) : ∃ x, s.IsAddress v x := by
  obtain ⟨ref, rfl, hfields⟩ := h.exists_fields
  simp only [Model.address, List.forall_mem_cons, List.not_mem_nil, false_implies, implies_true,
    and_true] at hfields
  obtain ⟨⟨_, hstreet, hs⟩, ⟨_, harea, ha⟩, ⟨_, hprovince, hp⟩, ⟨_, hcountry, hn⟩,
    ⟨_, hzipcode, hz⟩, _⟩ := hfields
  obtain ⟨street, rfl⟩ := hs.exists_text
  obtain ⟨area, rfl⟩ := ha.exists_text
  obtain ⟨province, rfl⟩ := hp.exists_text
  obtain ⟨country, rfl⟩ := hn.exists_int
  obtain ⟨zipcode, rfl⟩ := hz.exists_text
  exact ⟨⟨street, area, province, zipcode, country⟩, ref, rfl, hstreet, harea, hprovince, hzipcode,
    hcountry⟩

theorem exists_optional (h : s.Fits (.optional Model.address.shape) v) :
    ∃ x, s.HoldsAddress v x := by
  cases h with
  | absent => exact ⟨none, rfl⟩
  | present h =>
    obtain ⟨x, hx⟩ := h.exists_address
    exact ⟨some x, hx⟩

/-- A validated customer has all the data that is mapped. -/
theorem exists_customer (h : s.Fits Model.customer.shape v) : ∃ c, s.IsStored v c := by
  obtain ⟨ref, rfl, hfields⟩ := h.exists_fields
  simp only [Model.customer, List.forall_mem_cons, List.not_mem_nil, false_implies, implies_true,
    and_true] at hfields
  obtain ⟨⟨_, hnumber, hn⟩, ⟨_, hjoined, hj⟩, ⟨_, hfirst, hf⟩, ⟨_, hsurname, hs⟩, ⟨_, hphone, hp⟩,
    ⟨home, hhome, hh⟩, ⟨business, hbusiness, hb⟩, ⟨shipping, hshipping, hsh⟩⟩ := hfields
  obtain ⟨number, rfl⟩ := hn.exists_int
  obtain ⟨joined, rfl⟩ := hj.exists_moment
  obtain ⟨firstName, rfl⟩ := hf.exists_text
  obtain ⟨surname, rfl⟩ := hs.exists_text
  obtain ⟨phone, rfl⟩ := hp.exists_text
  obtain ⟨x, hx⟩ := hh.exists_optional
  obtain ⟨y, hy⟩ := hb.exists_optional
  obtain ⟨z, hz⟩ := hsh.exists_optional
  exact ⟨⟨number, joined, firstName, surname, phone, x, y, z⟩, ref, home, business, shipping, rfl,
    hnumber, hjoined, hfirst, hsurname, hphone, hhome, hbusiness, hshipping, hx, hy, hz⟩

end Store.Fits

/-! ### Answers -/

/-- How the call for a customer ends: the phone number decides first, then the home address, then
the business and shipping addresses. -/
inductive Customer.Answered (countries : List (ℤ × String)) (c : Customer) (s : Store) :
    Outcome → Prop
  /-- There is no home address, or no dialling code is known for its country. -/
  | noCode {e : Raised} (hcode : diallingCodes.lookup c.homeCountry = none)
      (he : e.fault = unknownCode c.homeCountry) : Answered countries c s (.error e)
  /-- There is no phone number. -/
  | noNumber {e : Raised} (hcode : diallingCodes.lookup c.homeCountry ≠ none)
      (hphone : c.phone = "") (he : e.fault = Phone.emptyNumber) : Answered countries c s (.error e)
  /-- The country of the home address is not in the table. -/
  | unknownHome {e : Raised} {x : Address} (hcode : diallingCodes.lookup c.homeCountry ≠ none)
      (hphone : c.phone ≠ "") (hhome : c.home = some x) (hx : countries.lookup x.country = none)
      (he : e.fault = Directory.unknownNumber x.country) : Answered countries c s (.error e)
  /-- The country of another address is not in the table. -/
  | unknownOther {e : Raised} {x : Address} (hcode : diallingCodes.lookup c.homeCountry ≠ none)
      (hphone : c.phone ≠ "") (hhome : ∀ y, c.home = some y → countries.lookup y.country ≠ none)
      (hmem : x ∈ c.others) (hx : countries.lookup x.country = none)
      (he : e.fault = Directory.unknownNumber x.country) : Answered countries c s (.error e)
  /-- All that is asked for is known. -/
  | mapped {v : Value} {code : String} (hcode : diallingCodes.lookup c.homeCountry = some code)
      (hphone : c.phone ≠ "") (hhome : ∀ y, c.home = some y → countries.lookup y.country ≠ none)
      (hothers : ∀ y ∈ c.others, countries.lookup y.country ≠ none)
      (hv : s.IsCustomerForm countries c code v) : Answered countries c s (.ok v)

theorem Directory.fate_eq_none_iff {countries : List (ℤ × String)} {n : ℤ} :
    fate countries n = none ↔ countries.lookup n ≠ none := by
  rw [fate]
  cases countries.lookup n <;> simp

namespace Customer

variable {countries : List (ℤ × String)} {c : Customer}

theorem fateOf_home_eq_none_iff : Directory.fateOf countries c.home = none ↔
    ∀ x, c.home = some x → countries.lookup x.country ≠ none := by
  cases c.home with
  | none => exact ⟨fun _ ↦ nofun, fun _ ↦ rfl⟩
  | some x =>
    rw [Directory.fateOf, Directory.fate_eq_none_iff]
    exact ⟨fun h _ hy ↦ by cases hy; exact h, fun h ↦ h x rfl⟩

theorem mem_others {x : Address} : x ∈ c.others ↔ some x ∈ [c.business, c.shipping] := by
  rw [others, List.mem_filterMap]
  exact ⟨fun ⟨_, hmem, hx⟩ ↦ hx ▸ hmem, fun hmem ↦ ⟨_, hmem, rfl⟩⟩

theorem othersFate_eq_none_iff : c.othersFate countries = none ↔
    ∀ x ∈ c.others, countries.lookup x.country ≠ none := by
  rw [othersFate, AddressService.raceFate_eq_none_iff, List.forall_mem_map]
  constructor
  · intro h x hx
    exact Directory.fate_eq_none_iff.mp (h _ (mem_others.mp hx))
  · rintro h (_ | x) hx
    · rfl
    · exact Directory.fate_eq_none_iff.mpr (h x (mem_others.mpr hx))

theorem fate_eq_none_iff : c.fate countries = none ↔ c.phoneFate = none ∧
    Directory.fateOf countries c.home = none ∧ c.othersFate countries = none := by
  rw [fate, Option.or_eq_none_iff, Option.or_eq_none_iff]

theorem phoneFate_eq_none_iff :
    c.phoneFate = none ↔ diallingCodes.lookup c.homeCountry ≠ none ∧ c.phone ≠ "" := by
  rw [phoneFate]
  cases diallingCodes.lookup c.homeCountry with
  | none => simp
  | some code => by_cases hphone : c.phone = "" <;> simp [hphone]

/-- A fault of mapping an address is that its country is unknown. -/
theorem exists_of_met_fateOf {x : Option Address} {e : Raised}
    (h : (Directory.fateOf countries x).Met (.error e)) : ∃ y, x = some y ∧
      countries.lookup y.country = none ∧ e.fault = Directory.unknownNumber y.country := by
  obtain ⟨is, his, he⟩ := h.exists_of_error
  cases x with
  | none => cases his
  | some y =>
    rw [Directory.fateOf, Directory.fate] at his
    cases hfound : countries.lookup y.country with
    | none =>
      rw [hfound] at his
      cases his
      exact ⟨y, rfl, hfound, he⟩
    | some _ =>
      rw [hfound] at his
      cases his

/-- So is a fault of mapping the business and shipping addresses. -/
theorem exists_of_met_othersFate {e : Raised} (h : (c.othersFate countries).Met (.error e)) :
    ∃ x ∈ c.others, countries.lookup x.country = none ∧
      e.fault = Directory.unknownNumber x.country := by
  obtain ⟨is, his, he⟩ := h.exists_of_error
  rw [othersFate, AddressService.raceFate] at his
  split_ifs at his
  cases his
  obtain ⟨is, hmem, he⟩ := he
  obtain ⟨x, hx, hfate⟩ := List.mem_map.mp hmem
  have hmet : (Directory.fateOf countries x).Met (.error e) :=
    hfate ▸ ⟨he, h.not_stopsIteration⟩
  obtain ⟨y, rfl, hunknown, hfault⟩ := exists_of_met_fateOf hmet
  exact ⟨y, mem_others.mpr hx, hunknown, hfault⟩

/-- A call that meets the fate of the customer, where this is a fault, is answered by it. -/
theorem answered_of_fault {s : Store} {o : Outcome} (hfate : c.fate countries ≠ none)
    (ho : (c.fate countries).Met o) : c.Answered countries s o := by
  cases o with
  | ok v => exact absurd ho.eq_none hfate
  | error e =>
    by_cases hphoneFate : c.phoneFate = none
    · obtain ⟨hcode, hphone⟩ := phoneFate_eq_none_iff.mp hphoneFate
      rw [fate, hphoneFate, Option.none_or] at ho
      by_cases hhomeFate : Directory.fateOf countries c.home = none
      · rw [hhomeFate, Option.none_or] at ho
        obtain ⟨x, hmem, hx, he⟩ := exists_of_met_othersFate ho
        exact .unknownOther hcode hphone (fateOf_home_eq_none_iff.mp hhomeFate) hmem hx he
      · obtain ⟨is, his⟩ := Option.ne_none_iff_exists'.mp hhomeFate
        have hmet : (Directory.fateOf countries c.home).Met (.error e) := by
          rw [his, Option.some_or] at ho
          rwa [his]
        obtain ⟨x, hhome, hx, he⟩ := exists_of_met_fateOf hmet
        exact .unknownHome hcode hphone hhome hx he
    · obtain ⟨is, his⟩ := Option.ne_none_iff_exists'.mp hphoneFate
      have he : is e := by
        rw [fate, his, Option.some_or] at ho
        exact ho.1
      rw [phoneFate] at his
      cases hcode : diallingCodes.lookup c.homeCountry with
      | none =>
        rw [hcode] at his
        cases his
        exact .noCode hcode he
      | some code =>
        rw [hcode] at his
        dsimp only at his
        split_ifs at his with hphone
        cases his
        exact .noNumber (hcode ▸ Option.some_ne_none code) hphone he

end Customer

namespace CustomerService

section Call

variable {m : Machine} {countries : List (ℤ × String)} {lookup : CountryLookup}
  {addresses : AddressService} {service : CustomerService} {entries : List (ℤ × Value)} {n : ℤ}
  {v : Value} {c : Customer}

/-- A call for a number that no customer has is refused, and nothing is looked up. -/
theorem call_of_unknown (hm : m.IsIdle)
    (hservice : service.IsMade (entries.map fun entry ↦ (.int entry.1, entry.2)) addresses)
    (hentry : entries.lookup n = none) :
    let call := m.complete (service.getById (.int n))
    (∃ e, call.1 = .error e ∧ e.fault = unknownNumber n) ∧
      call.2.2.store.lookups = m.store.lookups ∧ call.2.2.BeginsNoMore := by
  intro call
  have herrand : Errand m.store True _ 1 0 (.fresh (service.getById (.int n))) :=
    .of_instant (instant_getById (hservice.customers_eq) hentry)
  have hcontent : ¬ True → m.store.standing.Yields (fun _ _ ↦ True) (service.getById (.int n)) :=
    fun hnot ↦ absurd trivial hnot
  have hended := herrand.complete hm hcontent (by decide)
  obtain ⟨begun, hlookups, hbegun⟩ := hended.lookups
  rw [Multiset.coe_eq_zero] at hbegun
  rw [hbegun, List.append_nil] at hlookups
  refine ⟨?_, hlookups, hended.beginsNoMore⟩
  have hresult := hended.result
  change Fate.Met _ call.1 at hresult
  cases ho : call.1 with
  | ok v =>
    rw [ho] at hresult
    exact hresult.elim
  | error e =>
    rw [ho] at hresult
    exact ⟨e, rfl, hresult.1⟩

/-- A call for a customer looks up each address that is present, once, and is answered as the phone
number, the home address and the other addresses decide. -/
theorem call_of_stored (hm : m.IsIdle) (hclear : m.store.IsClear)
    (hlookup : (Directory.ofCountries countries).ToldBy lookup) (ha : addresses.IsMade lookup)
    (hservice : service.IsMade (entries.map fun entry ↦ (.int entry.1, entry.2)) addresses)
    (hentry : entries.lookup n = some v) (hc : m.store.IsStored v c) :
    let call := m.complete (service.getById (.int n))
    c.Answered countries call.2.2.store call.1 ∧
      (∃ begun : List Value, call.2.2.store.lookups = m.store.lookups ++ begun ∧
        (begun : Multiset Value) = c.lookups) ∧
      call.2.2.BeginsNoMore := by
  intro call
  obtain ⟨ref, home, business, shipping, hc⟩ := hc
  have herrand : Errand m.store (c.fate countries ≠ none) (FailsAs (c.fate countries)) 30 c.lookups
      (.fresh (service.getById (.int n))) :=
    errand_getById hclear hlookup ha hservice hentry hc fun hothers hnone ↦
      hothers (Customer.fate_eq_none_iff.mp hnone).2.2
  have hcontent : ¬ c.fate countries ≠ none →
      m.store.standing.Yields (fun m o ↦ c.Answered countries m.store o)
        (service.getById (.int n)) := by
    intro hnot
    obtain ⟨hphoneFate, hhome, hothers⟩ := Customer.fate_eq_none_iff.mp (not_ne_iff.mp hnot)
    obtain ⟨hcode, hphone⟩ := Customer.phoneFate_eq_none_iff.mp hphoneFate
    obtain ⟨code, hcode⟩ := Option.ne_none_iff_exists'.mp hcode
    refine Surroundings.Yields.mono
      (returns_getById hclear hlookup ha hc hcode hphone hhome hothers hservice hentry) ?_
    rintro m' _ _ ⟨dto, rfl, hdto⟩
    exact .mapped hcode hphone (Customer.fateOf_home_eq_none_iff.mp hhome)
      (Customer.othersFate_eq_none_iff.mp hothers) hdto
  have hended := herrand.complete hm hcontent (by decide)
  refine ⟨?_, hended.lookups, hended.beginsNoMore⟩
  by_cases hfate : c.fate countries = none
  · exact hended.keeps (not_ne_iff.mpr hfate)
  · exact Customer.answered_of_fault hfate (hended.result hfate)

end Call

end CustomerService

/-! ### Days of joining -/

namespace Moment

/-- A number that fills the width gets no zeros in front. -/
theorem padded_of_le {width n : ℕ} (h : 10 ^ width ≤ n) : padded (width + 1) n = toString n := by
  have hlength : width + 1 ≤ (toString n).toList.length := by
    rw [Nat.toString_eq_ofList_toDigits, String.toList_ofList]
    by_contra hless
    have hle : (Nat.toDigits 10 n).length ≤ width := Nat.lt_succ_iff.mp (not_le.mp hless)
    rcases Nat.eq_zero_or_pos width with rfl | hwidth
    · exact absurd hle (not_le.mpr Nat.length_toDigits_pos)
    · exact absurd ((Nat.length_toDigits_le_iff (by decide) hwidth).mp hle) (not_lt.mpr h)
  rw [padded, Nat.sub_eq_zero_of_le hlength, List.replicate_zero, List.nil_append,
    String.ofList_toList]

/-- Day, month and year with slashes, where the year takes four digits. -/
def fullDate (m : Moment) : String :=
  padded 2 m.day ++ "/" ++ padded 2 m.month ++ "/" ++ padded 4 m.year

/-- From the year 1000 on, the year is written with four digits. -/
theorem dayMonthYear_eq_fullDate {m : Moment} (h : 1000 ≤ m.year) :
    m.dayMonthYear = m.fullDate := by
  have hyear : padded 4 m.year = toString m.year := padded_of_le h
  rw [dayMonthYear, fullDate, hyear]

end Moment

namespace Sample

def home : Address := ⟨"3 Some Lane", "Area", "Province", "1234", 1⟩

def office : Address := ⟨"Central World", "Pathum Wan", "Bangkok", "15000", 9⟩

def warehouse : Address := ⟨"1 Shipping Street", "Shipton", "Shingsford", "SHP100", 2⟩

def mike : Customer :=
  ⟨12345, ⟨1990, 1, 1, 0, 0, 0, 0, none⟩, "Mike", "Chamberlain", "0971143378", some home,
    some office, some warehouse⟩

def recordOf (x : Address) : Record :=
  ⟨"Address",
    [("street", .text x.street), ("area", .text x.area), ("province", .text x.province),
      ("country_id", .int x.country), ("zipcode", .text x.zipcode), ("phone_number", .text "")]⟩

/-- A machine with a customer that has all three addresses. -/
def shop : Machine :=
  { Machine.empty with
    store :=
      { Store.empty with
        records :=
          #[recordOf home, recordOf office, recordOf warehouse,
            ⟨"Customer",
              [("customer_number", .int 12345), ("date_joined", .moment mike.joined),
                ("first_name", .text "Mike"), ("surname", .text "Chamberlain"),
                ("phone_number", .text "0971143378"), ("home_address", .record 0 "Address"),
                ("business_address", .record 1 "Address"),
                ("shipping_address", .record 2 "Address")]⟩] } }

theorem fits_recordOf {s : Store} {ref : ℕ} {x : Address}
    (h : s.records[ref]? = some (recordOf x)) :
    s.Fits Model.address.shape (.record ref "Address") := by
  refine Store.Fits.of_fields h ?_
  simp only [Model.address, List.forall_mem_cons, List.not_mem_nil, false_implies, implies_true,
    and_true]
  exact ⟨⟨_, rfl, .text _⟩, ⟨_, rfl, .text _⟩, ⟨_, rfl, .text _⟩, ⟨_, rfl, .integer _⟩,
    ⟨_, rfl, .text _⟩, ⟨_, rfl, .text _⟩⟩

/-- The same machine when the customer joined at some time. -/
def shopJoined (joined : Moment) : Machine :=
  { shop with store := shop.store.setField 3 "date_joined" (.moment joined) }

theorem fits_joined (joined : Moment) :
    (shopJoined joined).store.Fits Model.customer.shape (.record 3 "Customer") := by
  refine Store.Fits.of_fields rfl ?_
  simp only [Model.customer, List.forall_mem_cons, List.not_mem_nil, false_implies, implies_true,
    and_true]
  exact ⟨⟨_, rfl, .integer _⟩, ⟨_, rfl, .moment _⟩, ⟨_, rfl, .text _⟩, ⟨_, rfl, .text _⟩,
    ⟨_, rfl, .text _⟩, ⟨_, rfl, .present (fits_recordOf (x := home) rfl)⟩,
    ⟨_, rfl, .present (fits_recordOf (x := office) rfl)⟩,
    ⟨_, rfl, .present (fits_recordOf (x := warehouse) rfl)⟩⟩

theorem isStored_joined (joined : Moment) :
    (shopJoined joined).store.IsStored (.record 3 "Customer") { mike with joined := joined } :=
  ⟨3, .record 0 "Address", .record 1 "Address", .record 2 "Address", rfl, rfl, rfl, rfl, rfl, rfl,
    rfl, rfl, rfl, ⟨0, rfl, rfl, rfl, rfl, rfl, rfl⟩, ⟨1, rfl, rfl, rfl, rfl, rfl, rfl⟩,
    ⟨2, rfl, rfl, rfl, rfl, rfl, rfl⟩⟩

theorem fits_mike : shop.store.Fits Model.customer.shape (.record 3 "Customer") :=
  fits_joined mike.joined

theorem isStored_mike : shop.store.IsStored (.record 3 "Customer") mike :=
  isStored_joined mike.joined

/-- Lookups that take their time, each a different one. -/
def slowLookup (countries : List (ℤ × String)) : CountryLookup :=
  (Directory.mk (Directory.ofCountries countries).table
    [(.int 1, 300), (.int 9, 100), (.int 2, 200)]).lookup

theorem eq_of_mem_others {x : Address} (h : x ∈ mike.others) : x = office ∨ x = warehouse :=
  List.mem_pair.mp h

/-- A table of all countries of the three addresses. -/
def threeCountries : List (ℤ × String) := [(1, "Thailand"), (2, "UK"), (9, "Elsewhere")]

/-- With this table, nothing keeps the customer from being mapped. -/
theorem mapped_joined {joined : Moment} {s : Store} {o : Outcome}
    (h : { mike with joined := joined }.Answered threeCountries s o) :
    ∃ dto, o = .ok dto ∧
      s.IsCustomerForm threeCountries { mike with joined := joined } "66" dto := by
  have hknown : Customer.diallingCodes.lookup mike.homeCountry ≠ none := by decide
  have hnumber : mike.phone ≠ "" := by decide
  cases h with
  | noCode hcode => exact absurd hcode hknown
  | noNumber _ hphone => exact absurd hphone hnumber
  | unknownHome _ _ hhome hx =>
    cases hhome
    exact absurd hx (by decide)
  | unknownOther _ _ _ hmem hx => rcases eq_of_mem_others hmem with rfl | rfl <;> cases hx
  | mapped hcode _ _ _ hv =>
    cases hcode
    exact ⟨_, rfl, hv⟩

/-- A time on the last day of the year 999. -/
def yearEnd : Moment := ⟨999, 12, 31, 1, 2, 3, 0, none⟩

end Sample

end Recast
