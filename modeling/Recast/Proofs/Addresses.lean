import Recast.Proofs.Forms
import Recast.Proofs.Fulfilment
import Recast.Proofs.Service

/-!
What becomes of addresses. An address service looks the country of each address up that is present,
once, and it fails when the country is unknown (`AddressService.errand_transform`). Several
addresses are mapped side by side: the call fails when one of them does, but by then all countries
are being looked up (`AddressService.errand_transformMany`).
-/

set_option autoImplicit false

namespace Recast

/-! ### Registering -/

namespace Builder

/-- A registration that is accepted is reported. -/
theorem registerLogged_eq {b : Builder} {d : Slot.Descriptor} {slot : Slot} {c : Compute}
    (h : b.register .field d c = .ok (b.push (b.newRule .field slot c))) (s : Store) :
    ∃ log, b.registerLogged .field d c s =
      (.ok (b.push (b.newRule .field slot c)), { s with log := log }) := by
  have hlast : (b.push (b.newRule .field slot c)).rules.getLast? = some (b.newRule .field slot c) :=
    List.getLast?_concat
  rw [registerLogged, offerLogged, offer_of_ok h]
  dsimp only
  rw [hlast]
  exact ⟨_, rfl⟩

/-- Fields whose texts are plain names, all different ones, are registered one after the other. -/
theorem exists_registerFields {entries : List (String × Compute)} {b : Builder} (hb : b.Registered)
    (hparse : ∀ entry ∈ entries, Slot.parseAs .field (.text entry.1) = .ok ⟨[entry.1]⟩)
    (hapart : (b.rules.map Rule.slot ++ entries.map fun entry ↦ Slot.mk [entry.1]).Pairwise
      fun x y ↦ x.overlaps y = false) (s : Store) :
    ∃ b' log, b.registerFields entries s = (.ok b', { s with log := log }) ∧ b'.Registered ∧
      b'.target = b.target ∧ b'.rules = b.rules ++ Rule.series b.id b.rules.length entries := by
  induction entries generalizing b s with
  | nil => exact ⟨b, s.log, rfl, hb, rfl, (List.append_nil _).symm⟩
  | cons entry rest ih =>
    obtain ⟨name, c⟩ := entry
    have hclear : ∀ x ∈ b.slots.map Prod.snd, (Slot.mk [name]).overlaps x = false := by
      intro x hx
      rw [hb.consistent.map_snd_slots] at hx
      rw [Slot.overlaps_comm]
      exact (List.pairwise_append.mp hapart).2.2 x hx _ List.mem_cons_self
    have hregister := register_of_clear (hparse _ List.mem_cons_self) hclear c
    have hvalid : (Slot.Descriptor.text name).IsValid := trivial
    obtain ⟨log, hlogged⟩ := registerLogged_eq hregister s
    have hrules : (b.push (b.newRule .field ⟨[name]⟩ c)).rules =
        b.rules ++ [⟨.field, ⟨⟨[name]⟩, ⟨b.id, b.rules.length⟩⟩, c⟩] := rfl
    obtain ⟨b', log', hall, hb', htarget, hseries⟩ := ih (hb.register hvalid hregister)
      (fun entry hmem ↦ hparse entry (List.mem_cons_of_mem _ hmem))
      (by rw [hrules, List.map_append, List.append_assoc]; exact hapart) { s with log := log }
    refine ⟨b', log', ?_, hb', htarget, ?_⟩
    · rw [registerFields, Action.bind, hlogged]
      exact hall
    · rw [hseries, hrules, List.append_assoc, List.length_append]
      rfl

/-- A new builder takes such fields. -/
theorem exists_registerFields_empty (source target : String) {entries : List (String × Compute)}
    (hparse : ∀ entry ∈ entries, Slot.parseAs .field (.text entry.1) = .ok ⟨[entry.1]⟩)
    (hnodup : (entries.map Prod.fst).Nodup) (id : ℕ) (s : Store) :
    ∃ b log, (empty id source target).registerFields entries s = (.ok b, { s with log := log }) ∧
      b.Registered ∧ b.target = target ∧ b.rules = Rule.series id 0 entries := by
  refine exists_registerFields (.empty id source target) hparse ?_ s
  refine List.pairwise_map.mpr ((List.pairwise_map.mp hnodup).imp fun hne ↦ ?_)
  refine Bool.eq_false_iff.mpr fun hoverlaps ↦ hne ?_
  rcases Slot.overlaps_iff.mp hoverlaps with hpre | hpre
  · exact (List.cons_prefix_cons.mp hpre).1
  · exact (List.cons_prefix_cons.mp hpre).1.symm

theorem buildLogged_eq {b : Builder} (hrules : b.rules ≠ []) (s : Store) :
    b.buildLogged s = (.ok b.snapshot, { s with log := s.log ++ [b.buildEntry true] }) := by
  have hbuild : b.build = .ok b.snapshot := if_neg (by simpa using hrules)
  rw [buildLogged, hbuild]
  rfl

end Builder

/-! ### Countries -/

/-- Entries under numbers are found like the numbers. -/
theorem Value.lookup_map_int {α : Type} (f : α → Value) (entries : List (ℤ × α)) (n : ℤ) :
    lookup (entries.map fun entry ↦ (.int entry.1, f entry.2)) (.int n) =
      (entries.lookup n).map f := by
  induction entries with
  | nil => rfl
  | cons entry entries ih =>
    have hsame : sameKey (.int entry.1) (.int n) = (entry.1 == n) := rfl
    have hsymm : (n == entry.1) = (entry.1 == n) := Bool.beq_comm
    rw [lookup] at ih ⊢
    rw [List.map_cons, List.find?_cons, List.lookup_cons, hsame, hsymm]
    cases entry.1 == n with
    | true => rfl
    | false => exact ih

/-- The directory of countries with these names. -/
def Directory.ofCountries (countries : List (ℤ × String)) : Directory :=
  ⟨countries.map fun country ↦ (.int country.1, .text country.2), []⟩

/-- The fault of a number that no country has. -/
def Directory.unknownNumber (n : ℤ) : Fault :=
  Fault.notFound ("Unknown country " ++ toString n ++ ".") [("country_id", .int n)]

/-- The lookup tells the names of a directory. It notes its start, and it answers at once or some
time later; that time may be another one for each lookup. -/
def Directory.ToldBy (d : Directory) (lookup : CountryLookup) : Prop :=
  ∀ (m : Machine) (country : Value), ∃ p : Prog,
    m.run (lookup country) =
        Machine.run p (m.act (Directory.noteLookup country)).2 ∧
      (p = Prog.ofAction (d.name country) ∨
        ∃ ms k, p = .sleep ms k ∧ k (.ok .null) = Prog.ofAction (d.name country))

namespace Directory

variable {countries : List (ℤ × String)} {lookup : CountryLookup}

/-- A directory tells its own names, whatever the times that its lookups take. -/
theorem toldBy_lookup (d : Directory) (latency : List (Value × ℕ)) :
    d.ToldBy (Directory.mk d.table latency).lookup := by
  intro m country
  refine ⟨_, rfl, ?_⟩
  cases (Directory.mk d.table latency).latency? country with
  | none => exact Or.inl rfl
  | some ms => exact Or.inr ⟨ms, _, rfl, rfl⟩

theorem lookup_table (countries : List (ℤ × String)) (n : ℤ) :
    Value.lookup (ofCountries countries).table (.int n) = (countries.lookup n).map .text :=
  Value.lookup_map_int .text countries n

/-- Whether a number stands for a country: if not, looking it up fails. -/
def fate (countries : List (ℤ × String)) (n : ℤ) : Fate :=
  match countries.lookup n with
  | some _ => none
  | none => some fun e ↦ e.fault = unknownNumber n

theorem name_ofCountries (countries : List (ℤ × String)) (n : ℤ) (s : Store) :
    (ofCountries countries).name (.int n) s =
      match countries.lookup n with
      | some name => (.ok (.text name), s)
      | none => Action.fail (unknownNumber n) s := by
  have hhashable : s.unhashable? (.int n) = none := rfl
  rw [name, hhashable]
  dsimp only
  rw [lookup_table]
  cases countries.lookup n <;> rfl

section Lookup

variable {s : Store} {leaves : Prop}

theorem instant_name (countries : List (ℤ × String)) (n : ℤ) :
    s.Instant (fate countries n).Met (Prog.ofAction ((ofCountries countries).name (.int n))) := by
  intro m _
  rw [Machine.run_ofAction, Machine.act, name_ofCountries, fate]
  cases countries.lookup n with
  | some name => exact ⟨m.store, _, rfl, .refl _ _, rfl, rfl⟩
  | none =>
    exact ⟨_, _, rfl, Store.sameBelow_count _ _,
      Fate.met_fault rfl fun _ hf ↦ by cases hf⟩

/-- A lookup begins when it starts. -/
theorem ToldBy.prompt (h : (ofCountries countries).ToldBy lookup) (n : ℤ) :
    Errand.Prompt s leaves (fate countries n).Met 2 {.int n} (.fresh (lookup (.int n))) := by
  refine .of_run fun m hm ↦ ?_
  obtain ⟨p, hrun, hp⟩ := h m (.int n)
  have hdeed : m.Deed s (m.act (noteLookup (.int n))).2 [.int n] [] :=
    ⟨⟨hm.types, hm.futures, hm.tasks, hm.size_le, hm.records⟩, rfl, rfl,
      (List.append_nil _).symm⟩
  rw [hrun]
  have hname := instant_name (s := s) countries n
  rcases hp with rfl | ⟨ms, k, rfl, hk⟩
  · obtain ⟨s', o, hname, hbelow, ho⟩ := hname _ hdeed.stands
    rw [hname]
    exact ⟨⟨[.int n], 0, 1, []⟩,
      ⟨⟨hdeed.trans (.of_sameBelow hdeed.stands hbelow), rfl, fun hnil ↦ absurd rfl hnil⟩,
        Nat.le_succ 1, fun _ ↦ Nat.lt_succ_self 1, nofun⟩, rfl, .ended ho⟩
  · refine ⟨⟨[.int n], 0, 1, []⟩, ⟨⟨hdeed, rfl, fun hnil ↦ absurd rfl hnil⟩,
        Nat.le_succ 1, fun _ ↦ Nat.lt_succ_self 1, nofun⟩, rfl, ?_⟩
    exact Errand.sleeping (hk ▸ Errand.of_instant hname) _

end Lookup

end Directory

/-! ### Addresses -/

/-- What is mapped of a validated address. -/
structure Address where
  street : String
  area : String
  province : String
  zipcode : String
  country : ℤ

/-- The value is a record of a validated address. -/
def Store.IsAddress (s : Store) (v : Value) (a : Address) : Prop :=
  ∃ ref, v = .record ref "Address" ∧ s.field? ref "street" = some (.text a.street) ∧
    s.field? ref "area" = some (.text a.area) ∧
    s.field? ref "province" = some (.text a.province) ∧
    s.field? ref "zipcode" = some (.text a.zipcode) ∧
    s.field? ref "country_id" = some (.int a.country)

/-- The value is a validated address that may be absent. -/
def Store.HoldsAddress (s : Store) (v : Value) : Option Address → Prop
  | none => v = .null
  | some a => s.IsAddress v a

/-- An attribute of a record that there was is what it was. -/
theorem Store.Stands.attribute?_eq {s : Store} {m : Machine} (hm : s.Stands m) {ref : ℕ}
    {name : String} {w : Value} (h : s.field? ref name = some w) (type : String) :
    m.store.attribute? (.record ref type) name = some w := by
  have href : ref < s.records.size := by
    by_contra hle
    rw [Store.field?, Array.getElem?_eq_none (Nat.le_of_not_lt hle)] at h
    cases h
  have hsame : m.store.field? ref name = some w := by
    rw [← h, Store.field?, Store.field?, hm.records ref href]
  simp only [Store.attribute?, Action.readAttribute, hsame]
  rfl

theorem Rule.evaluate_plain {r : Rule} {run : Value → Prog} (hr : r.compute = .plain run)
    (source : Value) : r.evaluate source = (run source).andThen Compute.await := by
  rw [Rule.evaluate, hr]
  rfl

theorem Rule.evaluate_asynchronous {r : Rule} {run : Value → Prog}
    (hr : r.compute = .asynchronous run) (source : Value) :
    r.evaluate source = (run source).asCoroutine := by
  rw [Rule.evaluate, hr]
  rfl

theorem Fate.met_text (t : String) : Met none (.ok (.text t)) := ⟨rfl, rfl⟩

theorem Fate.met_int (n : ℤ) : Met none (.ok (.int n)) := ⟨rfl, rfl⟩

/-- A rule that copies an attribute succeeds at once. -/
theorem AddressService.instant_copy {s : Store} {ref : ℕ} {name : String} {w : Value}
    (h : s.field? ref name = some w) (hw : Fate.Met none (.ok w)) (type : String) {r : Rule}
    (hr : r.compute = copy name) :
    s.Instant (Fate.Met none) (r.evaluate (.record ref type)) := by
  have hread : s.Leads (Prog.ofAction (Action.readAttribute (.record ref type) name))
      (.done (.ok w)) := by
    intro m hm
    refine ⟨m.store, ?_, .refl _ _⟩
    rw [Machine.run_ofAction, Machine.act, Store.readAttribute_eq, hm.attribute?_eq h type]
    rfl
  rw [Rule.evaluate_plain hr, Prog.andThen_eq]
  exact (hread.bind (Prog.onward Compute.await)).instant hw.instant_await

namespace AddressService

/-- The service is made of rules on top of a lookup. -/
def IsMade (a : AddressService) (lookup : CountryLookup) : Prop :=
  ∃ (b : Builder) (owner : ℕ), b.Registered ∧ b.target = "AddressDto" ∧
    b.rules = Rule.series owner 0 (rules lookup) ∧ a.mapper = b.snapshot

theorem exists_make (lookup : CountryLookup) (delay : ℕ) (s : Store) :
    ∃ a s', make lookup delay s = (.ok a, s') ∧ a.IsMade lookup ∧ a.delay = delay ∧
      s.SameBelow s.records.size s' := by
  have hparse : ∀ entry ∈ rules lookup,
      Slot.parseAs .field (.text entry.1) = .ok ⟨[entry.1]⟩ := by
    simp only [rules, List.forall_mem_cons, List.not_mem_nil, false_implies, implies_true, and_true]
    exact ⟨rfl, rfl, rfl, rfl, rfl⟩
  obtain ⟨b, log, hregister, hb, htarget, hrules⟩ := Builder.exists_registerFields_empty
    Model.address.name Model.addressDto.name hparse (by simp [rules]) s.nextId
    { s with nextId := s.nextId + 1 }
  have hne : b.rules ≠ [] := hrules ▸ nofun
  refine ⟨⟨b.snapshot, delay⟩,
    { s with nextId := s.nextId + 1, log := log ++ [b.buildEntry true] }, ?_,
    ⟨b, s.nextId, hb, htarget, hrules, rfl⟩, rfl,
    (Store.sameBelow_count _ s).trans (Plan.sameBelow_log _ _ _)⟩
  have hfresh : Action.fresh s = (.ok s.nextId, { s with nextId := s.nextId + 1 }) := rfl
  simp only [make, Action.bind, hfresh, hregister, Builder.buildLogged_eq hne]
  rfl

/-- Wherever the records of a store are, the service maps addresses with this lookup. -/
def Maps (a : AddressService) (s : Store) (lookup : CountryLookup) : Prop :=
  ∃ (b : Builder) (owner : ℕ), b.Plain s (.leaf s.types "AddressDto" Store.addressFields) ∧
    b.rules = Rule.series owner 0 (rules lookup) ∧ a.mapper = b.snapshot

section Transform

variable {s : Store} {leaves : Prop} {lookup : CountryLookup} {fate : Fate} {a : AddressService}
  {v : Value} {x : Address} {turns : ℕ}

/-- What the rule for an attribute ends in: only the lookup of the country may fail. -/
def ruleFate (fate : Fate) (name : String) : Fate := if name = "country_name" then fate else none

/-- What the rule for an attribute looks up. -/
def ruleLookups (x : Address) (name : String) : Multiset Value :=
  if name = "country_name" then {.int x.country} else 0

/-- The turns that the rule for an attribute takes at most. -/
def ruleTurns (turns : ℕ) (name : String) : ℕ := if name = "country_name" then turns else 1

/-- The rules that copy attributes. -/
def copies : List (String × Compute) :=
  [("street", copy "street"), ("area", copy "area"), ("state", copy "province"),
    ("postcode", copy "zipcode")]

theorem rules_eq (lookup : CountryLookup) :
    rules lookup = copies ++ [("country_name", countryName lookup)] := rfl

theorem ne_of_mem_copies : ∀ entry ∈ copies, entry.1 ≠ "country_name" := by
  simp [copies]

theorem instant_copies (hx : s.IsAddress v x) : ∀ entry ∈ copies, ∀ r : Rule,
    r.compute = entry.2 → s.Instant (Fate.Met none) (r.evaluate v) := by
  obtain ⟨ref, rfl, hstreet, harea, hprovince, hzipcode, _⟩ := hx
  simp only [copies, List.forall_mem_cons, List.not_mem_nil, false_implies, implies_true, and_true]
  exact ⟨fun r hr ↦ instant_copy hstreet (Fate.met_text _) _ hr,
    fun r hr ↦ instant_copy harea (Fate.met_text _) _ hr,
    fun r hr ↦ instant_copy hprovince (Fate.met_text _) _ hr,
    fun r hr ↦ instant_copy hzipcode (Fate.met_text _) _ hr⟩

/-- The rule for the country reads its number and looks it up. -/
theorem run_country (hx : s.IsAddress v x) {m : Machine} (hm : s.Stands m)
    (lookup : CountryLookup) :
    m.run (Prog.first (Action.readAttribute v "country_id") lookup) =
      m.run (lookup (.int x.country)) := by
  obtain ⟨ref, rfl, _, _, _, _, hcountry⟩ := hx
  rw [Prog.first, Machine.run_act, Machine.act, Store.readAttribute_eq,
    hm.attribute?_eq hcountry "Address"]

theorem leads_country (hx : s.IsAddress v x) (lookup : CountryLookup) :
    s.Leads (Prog.first (Action.readAttribute v "country_id") lookup)
      (lookup (.int x.country)) :=
  fun m hm ↦ ⟨m.store, run_country hx hm lookup, .refl _ _⟩

theorem prompt_rule (hlookup :
      Errand.Prompt s leaves fate.Met turns {.int x.country} (.fresh (lookup (.int x.country))))
    (hx : s.IsAddress v x) : ∀ entry ∈ rules lookup, ∀ r : Rule, r.compute = entry.2 →
      Errand.Prompt s leaves (ruleFate fate entry.1).Met (ruleTurns turns entry.1)
        (ruleLookups x entry.1) (.fresh (r.evaluate v)) := by
  rw [rules_eq, List.forall_mem_append, List.forall_mem_singleton]
  refine ⟨fun entry hentry r hr ↦ ?_, fun r hr ↦ ?_⟩
  · simp only [ruleFate, ruleTurns, ruleLookups, if_neg (ne_of_mem_copies entry hentry)]
    exact (Errand.of_instant (instant_copies hx entry hentry r hr)).prompt
  · rw [Rule.evaluate_asynchronous hr]
    exact ((leads_country hx lookup).prompt hlookup).asCoroutine

theorem IsMade.maps (ha : a.IsMade lookup) (hclear : s.type? "AddressDto" = none) :
    a.Maps s lookup := by
  obtain ⟨b, owner, hb, htarget, hrules, hmapper⟩ := ha
  have hmakes : s.standing.Makes b.target (.leaf s.types "AddressDto" Store.addressFields) := by
    rw [htarget]
    exact Store.makes_addressDto hclear
  refine ⟨b, owner, .of_series hb hrules nofun hmakes ?_, hrules, hmapper⟩
  simp only [rules, List.forall_mem_cons, List.not_mem_nil, false_implies, implies_true, and_true]
  refine ⟨?_, ?_, ?_, ?_, ?_⟩ <;>
    exact Pattern.refusal?_eq_none Model.addressDto rfl hclear rfl rfl

theorem isOpen_transform {b : Builder} {pattern : Pattern} (hb : b.Plain s pattern)
    (hv : v ≠ .null) {m : Machine} (hm : s.Stands m) :
    (m.run (b.snapshot.transform v)).2.isOpen = true := by
  obtain ⟨target, built, _, hrun, _⟩ := hb.run_transform hv hm
  rw [hrun]
  rfl

/-- What follows when an address was mapped ends at once. -/
theorem instant_logged {fate : Fate} {o : Outcome} (ho : fate.Met o) :
    s.Instant fate.Met
      (Prog.onward (fun dto ↦ Prog.also (Action.report entry) (Prog.give dto)) o) := by
  cases o with
  | error e => exact Store.instant_done ho
  | ok dto => exact (Store.Leads.report entry _).instant (Store.instant_done ho)

/-- Without a delay, an address is looked up with the second turn. -/
theorem Maps.primed (ha : a.Maps s lookup) (hx : s.IsAddress v x) (hlookup :
      Errand.Prompt s leaves fate.Met turns {.int x.country} (.fresh (lookup (.int x.country)))) :
    Errand.Primed s leaves fate.Met (turns + 4) {.int x.country} (a.mapNow v).asCoroutine := by
  obtain ⟨b, owner, hb, hrules, hmapper⟩ := ha
  have hv : v ≠ .null := by
    obtain ⟨ref, rfl, _⟩ := hx
    exact nofun
  have hfate : ((rules lookup).findSome? fun entry ↦ ruleFate fate entry.1) = fate := by
    simp only [rules, ruleFate, List.findSome?_cons, List.findSome?_nil, String.reduceEq,
      if_false, if_true]
    cases fate <;> rfl
  have hturns : ((rules lookup).map fun entry ↦ ruleTurns turns entry.1).sum = turns + 4 := by
    simp [rules, ruleTurns]
    omega
  have htransform : Errand.Primed s leaves _ _ _ _ :=
    hb.primed_series hrules hv (prompt_rule hlookup hx)
  rw [hfate, hturns] at htransform
  have hopen : ∀ m, s.Stands m → (m.run (b.snapshot.transform v)).2.isOpen = true := fun m hm ↦
    isOpen_transform hb hv hm
  have hcoroutine := htransform.bind hopen fun _ ho ↦ ho.instant_guarded
  have hopen' := fun m hm ↦ Errand.isOpen_run_bind (hopen m hm) Prog.guarded
  have hlogged := hcoroutine.bind hopen' fun _ ho ↦ instant_logged ho
  have hopen'' := fun m hm ↦ Errand.isOpen_run_bind (hopen' m hm)
    (Prog.onward fun dto ↦ Prog.also (Action.report entry) (Prog.give dto))
  have hmap := hlogged.bind hopen'' fun _ ho ↦ ho.instant_guarded
  rw [← Prog.asCoroutine, ← Prog.andThen_eq] at hmap
  rw [mapNow, hmapper]
  exact hmap

theorem run_mapNow_null (a : AddressService) (m : Machine) :
    m.run (a.mapNow .null).asCoroutine =
      ({ m with store := { m.store with log := m.store.log ++ [entry] } },
        .settled (.ok .null)) := rfl

/-- An absent address is mapped at once, and nothing is looked up. -/
theorem primed_null (a : AddressService) :
    Errand.Primed s leaves (Fate.Met none) 6 0 (a.mapNow .null).asCoroutine := by
  intro m hm
  have hended : Errand s leaves (Fate.Met none) 6 0 (.settled (.ok .null)) := .ended ⟨rfl, rfl⟩
  rw [run_mapNow_null]
  exact ⟨.of_sameBelow hm (Plan.sameBelow_log _ _ _), hended.prompt, nofun⟩

/-- The delay comes first. -/
theorem errand_of_primed {todo : Multiset Value}
    (h : Errand.Primed s leaves fate.Met turns todo (a.mapNow v).asCoroutine) :
    Errand s leaves fate.Met (turns + 2) todo (.fresh (a.transform v).asCoroutine) := by
  rw [AddressService.transform]
  split_ifs
  · exact h.errand.mono (fun _ ho ↦ ho) (Nat.le_succ _)
  · exact Errand.sleep h.errand a.delay

end Transform

end AddressService

/-- What mapping an address that may be absent ends in. -/
def Directory.fateOf (countries : List (ℤ × String)) : Option Address → Fate
  | none => none
  | some x => fate countries x.country

/-- What mapping an address that may be absent looks up. -/
def Address.lookups : Option Address → Multiset Value
  | none => 0
  | some x => {.int x.country}

namespace AddressService

section Service

variable {s : Store} {leaves : Prop} {countries : List (ℤ × String)} {lookup : CountryLookup}
  {a : AddressService} (hclear : s.type? "AddressDto" = none)
  (hlookup : (Directory.ofCountries countries).ToldBy lookup) (ha : a.IsMade lookup)

include hclear hlookup ha

theorem primed_mapNow {v : Value} {x : Option Address} (hx : s.HoldsAddress v x) :
    Errand.Primed s leaves (Directory.fateOf countries x).Met 6 (Address.lookups x)
      (a.mapNow v).asCoroutine := by
  cases x with
  | none =>
    obtain rfl : v = .null := hx
    exact primed_null a
  | some x => exact (ha.maps hclear).primed hx (hlookup.prompt x.country)

/-- An address that is present is looked up once, and the call fails when its country is unknown. -/
theorem errand_transform {v : Value} {x : Option Address} (hx : s.HoldsAddress v x) :
    Errand s leaves (Directory.fateOf countries x).Met 8 (Address.lookups x)
      (.fresh (a.transform v).asCoroutine) := by
  exact errand_of_primed (primed_mapNow hclear hlookup ha hx)

end Service

/-- What addresses that are mapped side by side end in: any fault of one of them, if one fails. -/
def raceFate (fates : List Fate) : Fate :=
  if fates.all Option.isNone then none else some fun e ↦ ∃ is, some is ∈ fates ∧ is e

section Many

variable {s : Store} {leaves : Prop} {fates : List Fate}

theorem raceFate_eq_none_iff : raceFate fates = none ↔ ∀ fate ∈ fates, fate = none := by
  rw [raceFate]
  split_ifs with hall <;> simpa using hall

theorem raceFate_of_mem {is : Raised → Prop} (h : some is ∈ fates) :
    raceFate fates = some fun e ↦ ∃ is, some is ∈ fates ∧ is e := by
  refine if_neg fun hall ↦ ?_
  cases List.all_eq_true.mp hall _ h

/-- What follows the race of addresses keeps those that are present, or raises the fault. -/
def keepPresent : Except Raised (List Value) → Prog
  | .ok dtos => Prog.ofAction (Action.newList (dtos.filter isPresent))
  | .error e => Prog.raise e

theorem decides_race (hleaves : raceFate fates ≠ none → leaves) :
    Errands.Decides s leaves (fates.map Fate.Met) (raceFate fates).Met keepPresent where
  leaves_of_error := by
    refine List.forall_mem_map.mpr fun fate hfate e he ↦ hleaves ?_
    obtain ⟨is, rfl, _⟩ := he.exists_of_error
    rw [raceFate_of_mem hfate]
    exact nofun
  succeeded vs hvs := by
    have hnone : ∀ fate ∈ fates, fate = none := by
      have hmet := List.forall₂_map_left_iff.mp hvs
      clear hvs hleaves
      induction hmet with
      | nil => exact nofun
      | cons hv _ ih => exact List.forall_mem_cons.mpr ⟨hv.eq_none, ih⟩
    rw [raceFate_eq_none_iff.mpr hnone]
    exact fun m _ ↦ ⟨_, _, rfl, Store.sameBelow_count _ _, rfl, rfl⟩
  failed := by
    rintro e ⟨_, hr, he⟩
    obtain ⟨fate, hfate, rfl⟩ := List.mem_map.mp hr
    obtain ⟨is, rfl, his⟩ := he.exists_of_error
    rw [raceFate_of_mem hfate]
    exact Store.instant_done ⟨⟨is, hfate, his⟩, he.not_stopsIteration⟩

/-- Addresses are mapped side by side, each by a service of its own, and those that are present are
kept. -/
def together (parts : List (AddressService × Value)) : Prog :=
  .race (parts.map fun part ↦ (part.1.transform part.2).asCoroutine) keepPresent

theorem transformMany_eq (a : AddressService) (vs : List Value) :
    a.transformMany vs = together (vs.map (a, ·)) := by
  have hkeep : ∀ r, keepPresent r = match r with
      | .ok dtos => Prog.ofAction (Action.newList (dtos.filter isPresent))
      | .error e => Prog.raise e := fun r ↦ by cases r <;> rfl
  rw [transformMany, together, List.map_map, funext hkeep]
  rfl

/-- What an address does when its service has waited. -/
def wakened (part : AddressService × Value) (o : Outcome) : Prog :=
  Prog.bind (Prog.onward (fun _ ↦ part.1.mapNow part.2) o) Prog.guarded

/-- A service either does not wait at all or first sleeps. -/
theorem transform_eq (part : AddressService × Value) : (part.1.transform part.2).asCoroutine =
    if part.1.delay = 0 then (part.1.mapNow part.2).asCoroutine
    else .sleep part.1.delay (wakened part) := by
  rw [transform]
  split_ifs <;> rfl

/-- So do services that wait equally long. -/
theorem map_transform {parts : List (AddressService × Value)} {delay : ℕ}
    (hdelay : ∀ part ∈ parts, part.1.delay = delay) :
    (parts.map fun part ↦ (part.1.transform part.2).asCoroutine) =
      if delay = 0 then parts.map fun part ↦ (part.1.mapNow part.2).asCoroutine
      else (parts.map wakened).map (Prog.sleep delay) := by
  split_ifs with hnone
  · refine List.map_congr_left fun part hpart ↦ ?_
    rw [transform_eq, if_pos ((hdelay part hpart).trans hnone)]
  · rw [List.map_map]
    refine List.map_congr_left fun part hpart ↦ ?_
    rw [transform_eq, hdelay part hpart, if_neg hnone]
    rfl

/-- Addresses that are about to be looked up are all looked up, also when one of them fails. -/
theorem errand_together {parts : List (AddressService × Value)} {delay turns : ℕ}
    {todo : Multiset Value} (hne : parts ≠ []) (hdelay : ∀ part ∈ parts, part.1.delay = delay)
    (hleaves : raceFate fates ≠ none → leaves)
    (h : Errands.Primed s leaves (fates.map Fate.Met) turns todo
      (parts.map fun part ↦ (part.1.mapNow part.2).asCoroutine)) :
    Errand s leaves (raceFate fates).Met (turns + 3) todo
      (.fresh (together parts).asCoroutine) := by
  refine Errand.asCoroutine ?_
  rw [together, map_transform hdelay]
  split_ifs
  · exact (Errands.race (decides_race hleaves) (by simpa using hne) h).mono (fun _ ho ↦ ho)
      (Nat.le_succ _)
  · have hwakened : ((parts.map wakened).map fun f ↦ f (.ok .null)) =
        parts.map fun part ↦ (part.1.mapNow part.2).asCoroutine := by
      rw [List.map_map]
      rfl
    exact Errands.race_asleep (decides_race hleaves) (by simpa using hne) (hwakened ▸ h) delay

end Many

section Service

variable {s : Store} {leaves : Prop} {countries : List (ℤ × String)} {lookup : CountryLookup}
  {a : AddressService} {vs : List Value} {xs : List (Option Address)}
  (hclear : s.type? "AddressDto" = none)
  (hlookup : (Directory.ofCountries countries).ToldBy lookup) (ha : a.IsMade lookup)

include hclear hlookup ha

theorem primed_all (hxs : List.Forall₂ s.HoldsAddress vs xs) :
    Errands.Primed s leaves ((xs.map (Directory.fateOf countries)).map Fate.Met)
      (6 * xs.length) (xs.map Address.lookups).sum (vs.map fun v ↦ (a.mapNow v).asCoroutine) := by
  induction hxs with
  | nil => exact .nil
  | @cons v x vs xs hx _ ih =>
    have hfirst : Errand.Primed s leaves _ _ _ _ := primed_mapNow hclear hlookup ha hx
    have hall := Errands.Primed.cons hfirst ih
    rwa [show 6 + 6 * xs.length = 6 * (x :: xs).length by rw [List.length_cons]; omega] at hall

/-- Of several addresses, each that is present is looked up once, also when another one fails. -/
theorem errand_transformMany (hne : vs ≠ []) (hxs : List.Forall₂ s.HoldsAddress vs xs)
    (hleaves : raceFate (xs.map (Directory.fateOf countries)) ≠ none → leaves) :
    Errand s leaves (raceFate (xs.map (Directory.fateOf countries))).Met (6 * xs.length + 3)
      (xs.map Address.lookups).sum (.fresh (a.transformMany vs).asCoroutine) := by
  have hprimed : Errands.Primed s leaves _ _ _ _ := primed_all hclear hlookup ha hxs
  have hdelay : ∀ part ∈ vs.map (a, ·), part.1.delay = a.delay := by simp
  rw [transformMany_eq]
  have hmap : ((vs.map (a, ·)).map fun part ↦ (part.1.mapNow part.2).asCoroutine) =
      vs.map fun v ↦ (a.mapNow v).asCoroutine := List.map_map
  exact errand_together (by simpa using hne) hdelay hleaves (hmap ▸ hprimed)

end Service

end AddressService

end Recast
