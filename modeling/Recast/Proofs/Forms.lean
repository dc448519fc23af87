import Recast.Proofs.Errand
import Recast.Proofs.Nesting

/-!
Forms for clients. A record of one of the `Dto` models that is made from nothing has the defaults of
its fields, and where no declared type hides the model, it is always made alike: a form of an
address or of contact details holds nothing further (`Store.makes_addressDto`,
`Store.makes_contactDto`), a form of a customer holds a form of contact details
(`Store.makes_customerDto`). The declared fields
of all of them can be set (`Pattern.refusal?_eq_none`).
-/

set_option autoImplicit false

namespace Recast

/-! ### Values in which nothing is seen -/

/-- The value has no parts, and it is no record. -/
structure Value.IsBare (v : Value) : Prop where
  access (s : Store) (a : Access) : s.access v a = none
  ne_record (ref : ℕ) (type : String) : v ≠ .record ref type

namespace Value

theorem isBare_null : IsBare .null := ⟨fun _ a ↦ by cases a <;> rfl, nofun⟩

theorem isBare_nil (id : ℕ) : IsBare (.list id []) := ⟨fun _ a ↦ by cases a <;> rfl, nofun⟩

/-- Bare values of one shell look the same everywhere. -/
theorem IsBare.look_eq {v w : Value} (hv : v.IsBare) (hw : w.IsBare) (hshell : w.shell = v.shell)
    (s s' : Store) : s'.look w = s.look v := by
  funext path
  cases path with
  | nil => exact congrArg some hshell
  | cons a rest => simp [Store.look, Store.descend, hv.access, hw.access]

end Value

/-! ### Forms -/

/-- The fields have the same names, and values in which nothing is seen, of the same shell. -/
def FieldsAlike (fields fields' : List (String × Value)) : Prop :=
  List.Forall₂ (fun x y ↦ y.1 = x.1 ∧ x.2.IsBare ∧ y.2.IsBare ∧ y.2.shell = x.2.shell)
    fields fields'

theorem FieldsAlike.lookup {fields fields' : List (String × Value)} (h : FieldsAlike fields fields')
    (name : String) : fields.lookup name = none ∧ fields'.lookup name = none ∨
      ∃ v w, fields.lookup name = some v ∧ fields'.lookup name = some w ∧ v.IsBare ∧ w.IsBare ∧
        w.shell = v.shell := by
  induction h with
  | nil => exact Or.inl ⟨rfl, rfl⟩
  | @cons x y fields fields' hxy _ ih =>
    obtain ⟨n, v⟩ := x
    obtain ⟨n', w⟩ := y
    obtain ⟨rfl, hbare⟩ := hxy
    rw [List.lookup_cons, List.lookup_cons]
    cases name == n' with
    | true => exact Or.inr ⟨v, w, rfl, rfl, hbare⟩
    | false => exact ih

/-- There is a record with these fields, of a type that is not declared. -/
structure Store.IsForm (s : Store) (ref : ℕ) (type : String) (fields : List (String × Value)) :
    Prop where
  record : s.records[ref]? = some ⟨type, fields⟩
  clear : s.type? type = none

namespace Store.IsForm

variable {s s' : Store} {ref ref' inner : ℕ} {type innerType : String}
  {fields fields' innerFields : List (String × Value)}

theorem attribute?_eq (h : s.IsForm ref type fields) (name : String) :
    s.attribute? (.record ref type) name = fields.lookup name :=
  Store.attribute?_record h.record (by rw [h.clear]; nofun) name

/-- Forms with fields alike look the same. -/
theorem look_eq (h : s.IsForm ref type fields) (h' : s'.IsForm ref' type fields')
    (halike : FieldsAlike fields fields') :
    s'.look (.record ref' type) = s.look (.record ref type) := by
  refine Store.look_record fun name ↦ ?_
  rw [h.attribute?_eq, h'.attribute?_eq]
  rcases halike.lookup name with hnone | ⟨v, w, hv, hw, hbare, hbare', hshell⟩
  · exact Or.inl hnone
  · exact Or.inr ⟨v, w, hv, hw, hbare.look_eq hbare' hshell s s'⟩

/-- In a form whose values are bare, no record is seen but itself. -/
theorem descend_eq (h : s.IsForm ref type fields) (halike : FieldsAlike fields fields)
    {path : List Access} {found : ℕ} {type' : String}
    (hfound : s.descend (.record ref type) path = some (.record found type')) :
    path = [] ∧ found = ref := by
  cases path with
  | nil =>
    cases hfound
    exact ⟨rfl, rfl⟩
  | cons a rest =>
    cases a with
    | member name =>
      rw [Store.descend, Store.access, h.attribute?_eq] at hfound
      rcases halike.lookup name with ⟨hnone, _⟩ | ⟨v, _, hv, _, hbare, _⟩
      · rw [hnone] at hfound
        cases hfound
      · rw [hv] at hfound
        cases rest with
        | nil => exact absurd (Option.some.inj hfound) (hbare.ne_record found type')
        | cons a rest =>
          rw [Option.bind_some, Store.descend, hbare.access] at hfound
          cases hfound
    | _ => cases hfound

end Store.IsForm

/-! ### Making forms -/

namespace Store

variable {s : Store}

/-- The store with one more record and the next number for objects. -/
def withForm (s : Store) (nextId : ℕ) (r : Record) : Store :=
  { s with nextId := nextId, records := s.records.push r }

theorem size_withForm (s : Store) (nextId : ℕ) (r : Record) :
    (s.withForm nextId r).records.size = s.records.size + 1 :=
  Array.size_push r

theorem records_withForm_self (s : Store) (nextId : ℕ) (r : Record) :
    (s.withForm nextId r).records[s.records.size]? = some r :=
  Array.getElem?_push_size

theorem records_withForm_of_lt (s : Store) (nextId : ℕ) (r : Record) {ref : ℕ}
    (h : ref < s.records.size) : (s.withForm nextId r).records[ref]? = s.records[ref]? :=
  (Array.getElem?_push_lt h).trans (Array.getElem?_eq_getElem h).symm

theorem sameBelow_withForm {base : ℕ} (h : base ≤ s.records.size) (nextId : ℕ) (r : Record) :
    s.SameBelow base (s.withForm nextId r) :=
  ⟨rfl, rfl, rfl, rfl, rfl, rfl, rfl, rfl, by rw [size_withForm]; omega,
    fun _ href ↦ records_withForm_of_lt s nextId r (by omega)⟩

theorem construct_model (model : Model) (hfind : Model.find? model.name = some model)
    (hclear : s.type? model.name = none) : Action.construct model.name s = model.make [] s := by
  simp only [Action.construct, Action.constructAt, hclear, hfind]

end Store

/-- What forms of a type with these fields are made like. -/
def Pattern.leaf (types : List TypeDecl) (type : String) (fields : List (String × Value)) :
    Pattern :=
  ⟨{ Store.empty with types := types, records := #[⟨type, fields⟩] }, .record 0 type⟩

namespace Store

variable {s : Store}

/-- A model whose fields hold nothing further is made alike wherever it is made. -/
theorem makes_leaf (model : Model) (fields : ℕ → List (String × Value))
    (hfind : Model.find? model.name = some model) (hclear : s.type? model.name = none)
    (halike : ∀ id id', FieldsAlike (fields id) (fields id'))
    (hmake : ∀ s : Store, ∃ next, model.make [] s =
      (.ok (.record s.records.size model.name),
        s.withForm next ⟨model.name, fields s.nextId⟩)) :
    s.standing.Makes model.name (.leaf s.types model.name (fields 0)) := by
  intro m hm
  have hclear' : m.store.type? model.name = none := by rw [type?, hm.types]; exact hclear
  obtain ⟨next, hmake⟩ := hmake m.store
  have hform : (m.store.withForm next ⟨model.name, fields m.store.nextId⟩).IsForm
      m.store.records.size model.name (fields m.store.nextId) :=
    ⟨records_withForm_self _ _ _, hclear'⟩
  have hleaf : (Pattern.leaf s.types model.name (fields 0)).store.IsForm 0 model.name (fields 0) :=
    ⟨rfl, hclear⟩
  refine ⟨hm.types, _, _, (construct_model model hfind hclear').trans hmake,
    sameBelow_withForm le_rfl _ _, rfl, ⟨?_, ?_⟩, hleaf.look_eq hform (halike _ _)⟩
  · intro path ref type hfound
    obtain ⟨_, rfl⟩ := hform.descend_eq (halike _ _) hfound
    exact ⟨le_rfl, by rw [size_withForm]; omega⟩
  · intro path path' ref type type' hfound hfound'
    obtain ⟨rfl, _⟩ := hform.descend_eq (halike _ _) hfound
    obtain ⟨rfl, _⟩ := hform.descend_eq (halike _ _) hfound'
    rfl

/-! ### The forms of the customer domain -/

/-- The fields of an address that is made from nothing. -/
def addressFields : List (String × Value) :=
  [("street", .null), ("area", .null), ("state", .null), ("country_name", .null),
    ("postcode", .null)]

/-- The fields of contact details that are made from nothing, with the number of the list. -/
def contactFields (id : ℕ) : List (String × Value) :=
  [("first", .null), ("last", .null), ("phone_number", .null), ("home_address", .null),
    ("other_addresses", .list id [])]

/-- The fields of a customer that is made from nothing, with the place of its contact details. -/
def customerFields (inner : ℕ) : List (String × Value) :=
  [("customer_id", .null), ("date_joined", .null), ("contact", .record inner "ContactDto")]

theorem fieldsAlike_addressFields : FieldsAlike addressFields addressFields := by
  have hnull : (Value.null).IsBare ∧ (Value.null).IsBare ∧ Value.null.shell = Value.null.shell :=
    ⟨Value.isBare_null, Value.isBare_null, rfl⟩
  simp only [FieldsAlike, addressFields, List.forall₂_cons, hnull, List.forall₂_nil_left_iff,
    and_self]

theorem fieldsAlike_contactFields (id id' : ℕ) :
    FieldsAlike (contactFields id) (contactFields id') := by
  have hnull : (Value.null).IsBare ∧ (Value.null).IsBare ∧ Value.null.shell = Value.null.shell :=
    ⟨Value.isBare_null, Value.isBare_null, rfl⟩
  have hlist : (Value.list id []).IsBare ∧ (Value.list id' []).IsBare ∧
      (Value.list id' []).shell = (Value.list id []).shell :=
    ⟨Value.isBare_nil id, Value.isBare_nil id', rfl⟩
  simp only [FieldsAlike, contactFields, List.forall₂_cons, hnull, hlist,
    List.forall₂_nil_left_iff, and_self]

theorem makes_addressDto (hclear : s.type? "AddressDto" = none) :
    s.standing.Makes "AddressDto" (.leaf s.types "AddressDto" addressFields) :=
  makes_leaf Model.addressDto (fun _ ↦ addressFields) rfl hclear
    (fun _ _ ↦ fieldsAlike_addressFields) fun s ↦ ⟨s.nextId, rfl⟩

theorem makes_contactDto (hclear : s.type? "ContactDto" = none) :
    s.standing.Makes "ContactDto" (.leaf s.types "ContactDto" (contactFields 0)) :=
  makes_leaf Model.contactDto contactFields rfl hclear
    fieldsAlike_contactFields fun s ↦ ⟨s.nextId + 1, rfl⟩

/-- What forms of a customer are made like. -/
def customerPattern (types : List TypeDecl) : Pattern :=
  ⟨{ Store.empty with
      types := types
      records := #[⟨"ContactDto", contactFields 0⟩, ⟨"CustomerDto", customerFields 0⟩] },
    .record 1 "CustomerDto"⟩

section Customer

variable {s' : Store} {ref ref' inner inner' id id' : ℕ}

theorem lookup_customerFields (inner : ℕ) (name : String) :
    (customerFields inner).lookup name =
      if name = "customer_id" ∨ name = "date_joined" then some .null
      else if name = "contact" then some (.record inner "ContactDto") else none := by
  by_cases hnumber : name = "customer_id" <;> by_cases hjoined : name = "date_joined" <;>
    by_cases hcontact : name = "contact" <;>
    simp [customerFields, List.lookup_cons, hnumber, hjoined, hcontact, beq_eq_false_iff_ne.mpr]

/-- Forms of customers look the same when they hold forms of contact details. -/
theorem look_customer (h : s.IsForm ref "CustomerDto" (customerFields inner))
    (hinner : s.IsForm inner "ContactDto" (contactFields id))
    (h' : s'.IsForm ref' "CustomerDto" (customerFields inner'))
    (hinner' : s'.IsForm inner' "ContactDto" (contactFields id')) :
    s'.look (.record ref' "CustomerDto") = s.look (.record ref "CustomerDto") := by
  refine look_record fun name ↦ ?_
  rw [h.attribute?_eq, h'.attribute?_eq, lookup_customerFields, lookup_customerFields]
  split_ifs
  · exact Or.inr ⟨_, _, rfl, rfl, Value.isBare_null.look_eq Value.isBare_null rfl s s'⟩
  · exact Or.inr ⟨_, _, rfl, rfl, hinner.look_eq hinner' (fieldsAlike_contactFields id id')⟩
  · exact Or.inl ⟨rfl, rfl⟩

/-- In a form of a customer, only the form and its contact details are seen. -/
theorem descend_customer (h : s.IsForm ref "CustomerDto" (customerFields inner))
    (hinner : s.IsForm inner "ContactDto" (contactFields id)) {path : List Access} {found : ℕ}
    {type : String}
    (hfound : s.descend (.record ref "CustomerDto") path = some (.record found type)) :
    path = [] ∧ found = ref ∨ path = [.member "contact"] ∧ found = inner := by
  cases path with
  | nil =>
    cases hfound
    exact Or.inl ⟨rfl, rfl⟩
  | cons a rest =>
    cases a with
    | member name =>
      rw [descend, access, h.attribute?_eq, lookup_customerFields] at hfound
      split_ifs at hfound with hnull hcontact
      · cases rest with
        | nil => cases hfound
        | cons b rest => cases b <;> cases hfound
      · obtain ⟨rfl, rfl⟩ := hinner.descend_eq (fieldsAlike_contactFields id id) hfound
        exact Or.inr ⟨by rw [hcontact], rfl⟩
      · cases hfound
    | _ => cases hfound

end Customer

theorem makes_customerDto (hclear : s.type? "ContactDto" = none)
    (hclear' : s.type? "CustomerDto" = none) :
    s.standing.Makes "CustomerDto" (customerPattern s.types) := by
  intro m hm
  have hcontact : m.store.type? "ContactDto" = none := by rw [type?, hm.types]; exact hclear
  have hcustomer : m.store.type? "CustomerDto" = none := by rw [type?, hm.types]; exact hclear'
  let inner := m.store.withForm (m.store.nextId + 1) ⟨"ContactDto", contactFields m.store.nextId⟩
  let outer := inner.withForm (m.store.nextId + 1)
    ⟨"CustomerDto", customerFields m.store.records.size⟩
  have hsize : inner.records.size = m.store.records.size + 1 := size_withForm _ _ _
  have hsize' : outer.records.size = inner.records.size + 1 := size_withForm _ _ _
  have hlt : m.store.records.size < inner.records.size := by omega
  have hmake : Model.customerDto.make [] m.store =
      (.ok (.record inner.records.size "CustomerDto"), outer) := rfl
  have hform :
      outer.IsForm inner.records.size "CustomerDto" (customerFields m.store.records.size) :=
    ⟨records_withForm_self _ _ _, hcustomer⟩
  have hinner : outer.IsForm m.store.records.size "ContactDto" (contactFields m.store.nextId) :=
    ⟨(records_withForm_of_lt _ _ _ hlt).trans (records_withForm_self _ _ _), hcontact⟩
  have hpattern : (customerPattern s.types).store.IsForm 1 "CustomerDto" (customerFields 0) :=
    ⟨rfl, hclear'⟩
  have hpattern' : (customerPattern s.types).store.IsForm 0 "ContactDto" (contactFields 0) :=
    ⟨rfl, hclear⟩
  have hbelow : m.store.SameBelow m.store.records.size outer :=
    (sameBelow_withForm le_rfl _ _).trans (sameBelow_withForm hlt.le _ _)
  refine ⟨hm.types, _, outer,
    (construct_model Model.customerDto rfl hcustomer).trans hmake, hbelow, rfl, ⟨?_, ?_⟩,
    look_customer hpattern hpattern' hform hinner⟩
  · intro path ref type hfound
    rw [Set.mem_Ico]
    rcases descend_customer hform hinner hfound with ⟨_, rfl⟩ | ⟨_, rfl⟩ <;> omega
  · intro path path' ref type type' hfound hfound'
    rcases descend_customer hform hinner hfound with ⟨rfl, rfl⟩ | ⟨rfl, rfl⟩ <;>
      rcases descend_customer hform hinner hfound' with ⟨rfl, href⟩ | ⟨rfl, href⟩ <;>
      first
      | rfl
      | omega

end Store

/-- A declared field of a model can be set, where no declared type hides the model. -/
theorem Pattern.refusal?_eq_none (model : Model) {pattern : Pattern} {ref : ℕ}
    (htarget : pattern.target = .record ref model.name)
    (hclear : pattern.store.type? model.name = none)
    (hfind : Model.find? model.name = some model) {name : String}
    (hname : Action.modelTakes model name = true) : pattern.refusal? ⟨[name]⟩ = none := by
  have haccept : pattern.store.accept (.record ref model.name) name =
      .ok ⟨ref, model.name, name⟩ := by
    simp only [Store.accept, Action.writeRefusal?, hclear, hfind, hname, if_true]
  rw [Pattern.refusal?, htarget]
  refine Store.refusal?_eq_none_iff.mpr ⟨some ⟨ref, model.name, name⟩, ?_⟩
  simp only [Store.landing, List.getLast?_singleton, List.dropLast_singleton, Store.reach, haccept]

end Recast
