import Recast.Api
import Recast.Proofs.Customers
import Recast.Proofs.Reporting

/-!
What the service logs. Its records are those of the inside (`Log.Entry.IsInner`): they have other
loggers than the layers around it, tell of nothing critical, and have no field for the number of the
request. This holds of the actions in it, which for the most part leave the log alone, of a mapper
whose computes keep to it (`Mapper.reports_transform`), and so of loading and mapping a customer
(`CustomerService.reports_getById`), whatever is stored and wherever countries are looked up.
-/

set_option autoImplicit false

namespace Recast

/-- A record of the inside: not by the logger of requests, not critical, and without a field for the
number of the request. -/
structure Log.Entry.IsInner (e : Log.Entry) : Prop where
  logger_ne : e.logger ≠ Api.requestLogger
  level_ne : e.level ≠ .critical
  notMem_extra : "request_id" ∉ e.extra.map Prod.fst

variable {kind : Log.Entry → Prop}

/-! ### Actions that leave the log alone -/

namespace Action

/-- What succeeds one after the other has succeeded first. -/
theorem exists_of_bind {α β : Type} {x : Action α} {f : α → Action β} {s s' : Store} {b : β}
    (h : bind x f s = (.ok b, s')) : ∃ v s₁, x s = (.ok v, s₁) ∧ f v s₁ = (.ok b, s') := by
  rw [bind] at h
  generalize hx : x s = t at h
  obtain ⟨e | v, s₁⟩ := t
  · cases h
  · exact ⟨v, s₁, rfl, h⟩

theorem reports_of_stays {α : Type} {a : Action α} (h : Stays 0 Store.SameLog a) :
    a.Reports kind := fun s ↦ .of_log_eq (h s (Nat.zero_le _)).1

theorem reports_readAttribute (v : Value) (name : String) : (readAttribute v name).Reports kind :=
  reports_of_stays (stays_readAttribute Store.growth_sameLog v name)

theorem reports_construct (type : String) : (construct type).Reports kind :=
  reports_of_log_eq (log_construct type)

theorem reports_newList (items : List Value) : (newList items).Reports kind :=
  reports_of_stays (stays_newList Store.growth_sameLog items)

theorem reports_length (v : Value) : (length v).Reports kind := by
  cases v with
  | text | bytes | list | tuple | dict => exact reports_done _
  | _ => exact reports_fail _

end Action

theorem Binder.reports_write (b : Binder) (target v : Value) : (b.write target v).Reports kind := by
  refine Action.reports_bind (Action.reports_of_log_eq fun s ↦ ?_) fun _ ↦
    Action.reports_of_log_eq (b.slot.log_write target v)
  rw [compile, Action.change]
  split_ifs <;> rfl

theorem Phone.reports_international (number country : Value) :
    (international number country).Reports kind := by
  intro s
  rw [international]
  cases s.unhashable? country with
  | some type => exact .of_log_eq rfl
  | none =>
    dsimp only
    cases Value.lookup diallingCodes country with
    | none => exact .of_log_eq rfl
    | some code =>
      by_cases htruth : number.truth
      · have hrest : (withoutFirst number).Reports kind := by
          refine Action.reports_of_log_eq fun s ↦ ?_
          cases number <;> rfl
        simpa only [htruth, if_true] using
          Action.reports_bind hrest (fun _ ↦ Action.reports_of_log_eq fun _ ↦ rfl) s
      · simpa only [htruth, Bool.false_eq_true, if_false] using Action.reports_fail emptyNumber s

/-! ### Lookups -/

theorem Directory.reports_lookup (d : Directory) (country : Value) :
    (d.lookup country).Reports kind := by
  have hname : (Prog.ofAction (d.name country)).Reports kind := by
    refine .ofAction (Action.reports_of_log_eq fun s ↦ ?_)
    rw [name]
    cases s.unhashable? country with
    | some type => rfl
    | none =>
      dsimp only
      cases Value.lookup d.table country <;> rfl
  rw [lookup]
  refine .also (Action.reports_of_log_eq fun _ ↦ rfl) ?_
  cases d.latency? country with
  | none => exact hname
  | some ms =>
    refine .sleep fun o ↦ ?_
    cases o with
    | ok _ => exact hname
    | error e => exact .raise e

theorem Remote.Client.reports_lookup (c : Client) (transport : String → Exchange)
    (country : Value) : (c.lookup transport country).Reports Log.Entry.IsInner := by
  unfold lookup
  apply Prog.Reports.ofAction
  intro s
  have hentry : ∀ url, (entry url).IsInner := fun url ↦
    ⟨by simp [entry, logger, Api.requestLogger], by simp [entry], by simp [entry]⟩
  have hreport : Store.Reports Log.Entry.IsInner s (c.tell country s).2 := by
    unfold tell
    split_ifs
    · exact .of_log_eq rfl
    · exact Action.reports_report (hentry (c.url s country)) s
  dsimp only
  generalize (c.tell country s).2 = s' at hreport
  cases (c.inquire s' country).verdict transport with
  | name v => exact hreport
  | fault f cause => exact hreport.trans (.of_log_eq rfl)

/-! ### Mappers -/

theorem Compute.reports_await (v : Value) : (await v).Reports kind := by
  unfold await
  by_cases hv : v.isAwaitable
  · simpa [hv] using .await .done
  · simpa [hv] using .give v

namespace Mapper

variable {m : Mapper}

theorem isInner_failureEntry (name : String) (r : Rule) (e : Raised) :
    (failureEntry name r e).IsInner :=
  ⟨by simp [failureEntry, logger, Api.requestLogger], by simp [failureEntry],
    by simp [failureEntry]⟩

/-- A mapper keeps to records of the inside when the computes of its rules do. -/
theorem reports_transform
    (h : ∀ r ∈ m.rules, ∀ source, (r.evaluate source).Reports Log.Entry.IsInner) (source : Value) :
    (m.transform source).Reports Log.Entry.IsInner := by
  have happly : ∀ target, ∀ p ∈ m.rules.map fun r ↦ r.apply source target,
      p.Reports Log.Entry.IsInner := by
    intro target
    refine List.forall_mem_map.mpr fun r hr ↦ ?_
    exact .asCoroutine ((h r hr source).andThen fun v ↦
      .ofAction (r.binder.reports_write target v))
  have hfill : ∀ target, (m.fill source target).Reports Log.Entry.IsInner := by
    refine fun target ↦ .gather (happly target) fun os ↦ ?_
    cases os with
    | none => exact .raise _
    | some outcomes =>
      dsimp only [conclude]
      cases firstFailure? (m.rules.zip outcomes) with
      | none => exact .give _
      | some failure =>
        exact .also (Action.reports_report (isInner_failureEntry _ _ _)) (.raise _)
  cases source with
  | null => exact .give _
  | _ => exact .first (Action.reports_construct _) hfill

/-- So does one that is made of rules for attributes. -/
theorem reports_series {b : Builder} {owner : ℕ} {entries : List (String × Compute)}
    (hrules : b.rules = Rule.series owner 0 entries)
    (h : ∀ entry ∈ entries, ∀ r : Rule, r.compute = entry.2 →
      ∀ source, (r.evaluate source).Reports Log.Entry.IsInner) (source : Value) :
    (b.snapshot.transform source).Reports Log.Entry.IsInner := by
  refine reports_transform (fun r hr ↦ ?_) source
  have hr' : r ∈ Rule.series owner 0 entries := hrules ▸ hr
  obtain ⟨entry, hentry, _, hcompute⟩ := Rule.mem_series hr'
  exact h entry hentry r hcompute

end Mapper

theorem Rule.reports_plain {r : Rule} {run : Value → Prog} (hr : r.compute = .plain run)
    (h : ∀ source, (run source).Reports kind) (source : Value) :
    (r.evaluate source).Reports kind := by
  rw [evaluate_plain hr]
  exact (h source).andThen Compute.reports_await

theorem Rule.reports_asynchronous {r : Rule} {run : Value → Prog}
    (hr : r.compute = .asynchronous run) (h : ∀ source, (run source).Reports kind)
    (source : Value) : (r.evaluate source).Reports kind := by
  rw [evaluate_asynchronous hr]
  exact (h source).asCoroutine

/-! ### Addresses -/

namespace AddressService

variable {a : AddressService} {lookup : CountryLookup}

theorem reports_copy (name : String) {r : Rule} (hr : r.compute = copy name) (source : Value) :
    (r.evaluate source).Reports kind :=
  r.reports_plain hr (fun _ ↦ .ofAction (Action.reports_readAttribute _ _)) source

theorem isInner_entry : entry.IsInner :=
  ⟨by simp [entry, logger, Api.requestLogger], by simp [entry], by simp [entry]⟩

theorem reports_rules (hlookup : ∀ v, (lookup v).Reports Log.Entry.IsInner) :
    ∀ entry ∈ rules lookup, ∀ r : Rule, r.compute = entry.2 →
      ∀ source, (r.evaluate source).Reports Log.Entry.IsInner := by
  simp only [rules, List.forall_mem_cons, List.not_mem_nil, false_implies, implies_true, and_true]
  refine ⟨fun r ↦ reports_copy _, fun r ↦ reports_copy _, fun r ↦ reports_copy _,
    fun r ↦ reports_copy _, fun r hr ↦ r.reports_asynchronous hr fun address ↦ ?_⟩
  exact .first (Action.reports_readAttribute _ _) hlookup

theorem reports_transform (ha : a.IsMade lookup)
    (hlookup : ∀ v, (lookup v).Reports Log.Entry.IsInner) (address : Value) :
    (a.transform address).Reports Log.Entry.IsInner := by
  obtain ⟨b, owner, _, _, hrules, hmapper⟩ := ha
  have hnow : (a.mapNow address).Reports Log.Entry.IsInner := by
    rw [mapNow, hmapper]
    exact (Mapper.reports_series hrules (reports_rules hlookup) address).asCoroutine.andThen
      fun dto ↦ .also (Action.reports_report isInner_entry) (.give dto)
  rw [transform]
  by_cases hdelay : a.delay = 0
  · simpa only [hdelay, if_true] using hnow
  · rw [if_neg hdelay]
    refine .sleep fun o ↦ ?_
    cases o with
    | ok _ => exact hnow
    | error e => exact .raise e

theorem reports_transformMany (ha : a.IsMade lookup)
    (hlookup : ∀ v, (lookup v).Reports Log.Entry.IsInner) (addresses : List Value) :
    (a.transformMany addresses).Reports Log.Entry.IsInner := by
  refine .race (List.forall_mem_map.mpr fun address _ ↦
    (reports_transform ha hlookup address).asCoroutine) fun r ↦ ?_
  cases r with
  | ok dtos => exact .ofAction (Action.reports_newList _)
  | error e => exact .raise e

end AddressService

/-! ### Customers -/

namespace CustomerService

variable {c : CustomerService} {customers : List (Value × Value)} {addresses : AddressService}
  {lookup : CountryLookup}

theorem reports_phone (customer : Value) : (phone customer).Reports kind := by
  refine Action.reports_bind ?_ fun country ↦ Action.reports_bind
    (Action.reports_readAttribute _ _) fun number ↦ Phone.reports_international number country
  refine Action.reports_bind (Action.reports_readAttribute _ _) fun home ↦ ?_
  by_cases htruth : home.truth
  · simpa only [htruth, if_true] using Action.reports_bind (Action.reports_readAttribute _ _)
      fun home ↦ Action.reports_readAttribute home "country_id"
  · simpa only [htruth, Bool.false_eq_true, if_false] using Action.reports_done _

theorem reports_joined (customer : Value) : (joined customer).Reports kind := by
  refine Action.reports_bind (Action.reports_readAttribute _ _) fun v ↦ ?_
  cases v with
  | moment m => exact Action.reports_done _
  | _ => exact Action.reports_fail _

theorem isInner_loadedEntry (number : Value) : (loadedEntry number).IsInner :=
  ⟨by simp [loadedEntry, storeLogger, Api.requestLogger], by simp [loadedEntry],
    by simp [loadedEntry]⟩

theorem isInner_mappedEntry (number count : Value) : (mappedEntry number count).IsInner :=
  ⟨by simp [mappedEntry, logger, Api.requestLogger], by simp [mappedEntry], by simp [mappedEntry]⟩

theorem reports_load (number : Value) : (c.load number).Reports Log.Entry.IsInner := by
  have hloaded : ∀ v : Value, (Action.bind (Action.report (loadedEntry number)) fun _ ↦
      Action.done v).Reports Log.Entry.IsInner := fun v ↦
    Action.reports_bind (Action.reports_report (isInner_loadedEntry number)) fun _ ↦
      Action.reports_done v
  intro s
  rw [load]
  cases s.unhashable? number with
  | some type => exact .of_log_eq rfl
  | none =>
    dsimp only
    cases (Value.lookup c.customers number).getD .null with
    | null => exact .of_log_eq rfl
    | _ => exact hloaded _ s

theorem reports_contactRules (ha : addresses.IsMade lookup)
    (hlookup : ∀ v, (lookup v).Reports Log.Entry.IsInner) :
    ∀ entry ∈ contactRules addresses, ∀ r : Rule, r.compute = entry.2 →
      ∀ source, (r.evaluate source).Reports Log.Entry.IsInner := by
  simp only [contactRules, List.forall_mem_cons, List.not_mem_nil, false_implies, implies_true,
    and_true]
  refine ⟨fun r ↦ AddressService.reports_copy _, fun r ↦ AddressService.reports_copy _,
    fun r hr ↦ r.reports_plain hr fun c ↦ .ofAction (reports_phone c),
    fun r hr ↦ r.reports_plain hr fun c ↦ ?_, fun r hr ↦ r.reports_plain hr fun c ↦ ?_⟩
  · exact .first (Action.reports_readAttribute _ _) fun home ↦
      (AddressService.reports_transform ha hlookup home).asCoroutine
  · exact .first (Action.reports_readAttribute _ _) fun business ↦
      .first (Action.reports_readAttribute _ _) fun shipping ↦
        (AddressService.reports_transformMany ha hlookup _).asCoroutine

/-- Loading and mapping a customer keeps to records of the inside, whatever the customers are and
whatever is asked for. -/
theorem reports_getById (hc : c.IsMade customers addresses) (ha : addresses.IsMade lookup)
    (hlookup : ∀ v, (lookup v).Reports Log.Entry.IsInner) (number : Value) :
    (c.getById number).Reports Log.Entry.IsInner := by
  obtain ⟨contact, b, owner, owner', _, _, hcontact, _, _, hrules, hmapper, _⟩ := hc
  have hrule : ∀ entry ∈ customerRules contact.snapshot, ∀ r : Rule, r.compute = entry.2 →
      ∀ source, (r.evaluate source).Reports Log.Entry.IsInner := by
    simp only [customerRules, List.forall_mem_cons, List.not_mem_nil, false_implies, implies_true,
      and_true]
    exact ⟨fun r ↦ AddressService.reports_copy _,
      fun r hr ↦ r.reports_plain hr fun c ↦ .ofAction (reports_joined c),
      fun r hr ↦ r.reports_asynchronous hr
        (Mapper.reports_series hcontact (reports_contactRules ha hlookup))⟩
  have htransform := Mapper.reports_series hrules hrule
  have hcount : ∀ dto, (otherCount dto).Reports Log.Entry.IsInner := fun dto ↦
    Action.reports_bind (Action.reports_readAttribute _ _) fun contact ↦
      Action.reports_bind (Action.reports_readAttribute _ _) Action.reports_length
  rw [getById, hmapper]
  refine .asCoroutine (.first (reports_load number) fun customer ↦
    (htransform customer).asCoroutine.andThen fun dto ↦ .first (hcount dto) fun count ↦ ?_)
  exact .also (Action.reports_report (isInner_mappedEntry number count)) (.give dto)

end CustomerService

/-! ### Applications -/

namespace Application

variable {a : Application} {settings : Settings} {s s' : Store}

/-- The application was assembled on top of a directory or of a client of a remote one, whatever its
settings and its customers are. -/
def IsAssembled (a : Application) : Prop :=
  ∃ (settings : Settings) (lookup : CountryLookup) (customers : List (Value × Value))
    (s s' : Store), ((∃ d : Directory, lookup = d.lookup) ∨
      ∃ (c : Remote.Client) (transport : String → Remote.Exchange), lookup = c.lookup transport) ∧
    assemble settings lookup customers s = (.ok a, s')

/-- Assembling an application always gives one. -/
theorem exists_assemble (settings : Settings) (lookup : CountryLookup)
    (customers : List (Value × Value)) (s : Store) :
    ∃ a s' addresses, assemble settings lookup customers s = (.ok a, s') ∧
      a.service.IsMade customers addresses ∧ addresses.IsMade lookup := by
  obtain ⟨addresses, s₁, hmake, haddresses, _, _⟩ :=
    AddressService.exists_make lookup (delay settings) s
  obtain ⟨service, s₂, hmake', hservice, _⟩ := CustomerService.exists_make customers addresses s₁
  refine ⟨⟨settings, service⟩, s₂, addresses, ?_, hservice, haddresses⟩
  rw [assemble, Action.bind, hmake]
  dsimp only
  rw [Action.bind, hmake']
  rfl

/-- An application that was started is assembled. -/
theorem isAssembled_of_start {transport : String → Remote.Exchange}
    (h : start settings transport s = (.ok a, s')) : a.IsAssembled := by
  have hlookup : (∃ d : Directory, lookup settings transport = d.lookup) ∨
      ∃ (c : Remote.Client) (transport' : String → Remote.Exchange),
        lookup settings transport = c.lookup transport' := by
    rw [lookup]
    by_cases hremote : settings.usesRemoteCountries
    · exact .inr ⟨_, transport, if_pos hremote⟩
    · exact .inl ⟨_, if_neg hremote⟩
  obtain ⟨_, s₁, _, hrest⟩ := Action.exists_of_bind h
  obtain ⟨customers, s₂, _, hassemble⟩ := Action.exists_of_bind hrest
  exact ⟨settings, _, customers, s₂, s', hlookup, hassemble⟩

/-- The service of an assembled application keeps to records of the inside. -/
theorem IsAssembled.reports_getById (h : a.IsAssembled) (number : Value) :
    (a.service.getById number).Reports Log.Entry.IsInner := by
  obtain ⟨settings, lookup, customers, s, s', hlookup, hassemble⟩ := h
  obtain ⟨a', s'', addresses, hassemble', hservice, haddresses⟩ :=
    exists_assemble settings lookup customers s
  obtain rfl : a' = a := by simpa using congrArg Prod.fst (hassemble'.symm.trans hassemble)
  refine CustomerService.reports_getById hservice haddresses ?_ number
  rcases hlookup with ⟨d, rfl⟩ | ⟨c, transport, rfl⟩
  · exact d.reports_lookup
  · exact c.reports_lookup transport

end Application

end Recast
