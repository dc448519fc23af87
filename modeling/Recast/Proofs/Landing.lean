import Recast.Proofs.Path
import Recast.Slot.Setter

/-!
Where a write into a slot lands. The objects along the path are read from the outside in, and the
last name is then set on the last object; `Slot.landing` says which attribute of which record that
is, or why there is none, without writing anything. `Slot.write_eq` is all that a write does: it
fails and leaves the store alone, or it sets this one attribute. Where a write lands depends only on
the attributes read along the path and on the declared types (`Slot.landing_congr`).
-/

set_option autoImplicit false

namespace Recast

/-! ### Setting an attribute -/

section Assign

variable {α : Type}

theorem lookup_map_assign (entries : List (String × α)) (name : String) (v : α) {other : String}
    (h : other ≠ name) :
    (entries.map fun entry ↦ if entry.1 == name then (name, v) else entry).lookup other =
      entries.lookup other := by
  induction entries with
  | nil => rfl
  | cons entry rest ih =>
    obtain ⟨key, w⟩ := entry
    by_cases hkey : key = name
    · subst hkey
      simp only [List.map_cons, beq_self_eq_true, if_true, List.lookup_cons, beq_false_of_ne h, ih]
    · simp only [List.map_cons, beq_false_of_ne hkey, Bool.false_eq_true, if_false,
        List.lookup_cons, ih]

theorem lookup_map_assign_self (entries : List (String × α)) (name : String) (v : α)
    (h : (entries.any fun entry ↦ entry.1 == name) = true) :
    (entries.map fun entry ↦ if entry.1 == name then (name, v) else entry).lookup name =
      some v := by
  induction entries with
  | nil => cases h
  | cons entry rest ih =>
    obtain ⟨key, w⟩ := entry
    by_cases hkey : key = name
    · subst hkey
      simp
    · have hrest : (rest.any fun entry ↦ entry.1 == name) = true := by simpa [hkey] using h
      simp only [List.map_cons, beq_false_of_ne hkey, Bool.false_eq_true, if_false,
        List.lookup_cons, beq_false_of_ne (Ne.symm hkey), ih hrest]

theorem lookup_eq_none_of_any {entries : List (String × α)} {name : String}
    (h : (entries.any fun entry ↦ entry.1 == name) ≠ true) : entries.lookup name = none := by
  induction entries with
  | nil => rfl
  | cons entry rest ih =>
    obtain ⟨key, w⟩ := entry
    rw [List.any_cons, ne_eq, Bool.or_eq_true, not_or, beq_iff_eq] at h
    rw [List.lookup_cons, beq_false_of_ne (Ne.symm h.1)]
    exact ih h.2

theorem lookup_append_of_ne (entries : List (String × α)) {name other : String} (h : other ≠ name)
    (v : α) : (entries ++ [(name, v)]).lookup other = entries.lookup other := by
  induction entries with
  | nil => simp [List.lookup_cons, beq_false_of_ne h]
  | cons entry rest ih =>
    obtain ⟨key, w⟩ := entry
    rw [List.cons_append, List.lookup_cons, List.lookup_cons, ih]

theorem lookup_append_self {entries : List (String × α)} {name : String}
    (h : entries.lookup name = none) (v : α) :
    (entries ++ [(name, v)]).lookup name = some v := by
  induction entries with
  | nil => simp
  | cons entry rest ih =>
    obtain ⟨key, w⟩ := entry
    rw [List.lookup_cons] at h
    rw [List.cons_append, List.lookup_cons]
    split at h
    · cases h
    · exact ih h

/-- An entry that was set is found, and the other entries are found as before. -/
theorem lookup_assign (entries : List (String × α)) (name other : String) (v : α) :
    (assign entries name v).lookup other =
      if other = name then some v else entries.lookup other := by
  unfold assign
  split_ifs with hany hother hother
  · exact hother ▸ lookup_map_assign_self entries name v hany
  · exact lookup_map_assign entries name v hother
  · exact hother ▸ lookup_append_self (lookup_eq_none_of_any hany) v
  · exact lookup_append_of_ne entries hother v

end Assign

/-- An attribute of a record of a type. -/
structure Spot where
  ref : ℕ
  type : String
  name : String

namespace Store

/-- The store after an attribute was set, with the event if the type is traced. -/
def put (s : Store) (p : Spot) (v : Value) : Store :=
  if Action.isTraced s p.type then
    (Action.note (p.type ++ "." ++ p.name) "write" (s.setField p.ref p.name v)).2
  else s.setField p.ref p.name v

theorem records_put (s : Store) (p : Spot) (v : Value) :
    (s.put p v).records =
      s.records.modify p.ref fun r ↦ { r with fields := assign r.fields p.name v } := by
  unfold put
  split <;> rfl

@[simp] theorem size_records_put (s : Store) (p : Spot) (v : Value) :
    (s.put p v).records.size = s.records.size := by
  rw [records_put, Array.size_modify]

/-- Setting an attribute leaves the other records alone. -/
theorem records_put_of_ne (s : Store) (p : Spot) (v : Value) {ref : ℕ} (h : ref ≠ p.ref) :
    (s.put p v).records[ref]? = s.records[ref]? := by
  rw [records_put, Array.getElem?_modify, if_neg h.symm]

/-- The attribute that was set has the value. -/
theorem field?_put_self (s : Store) (p : Spot) (v : Value) (h : p.ref < s.records.size) :
    (s.put p v).field? p.ref p.name = some v := by
  have hrecord : s.records[p.ref]? = some s.records[p.ref] := Array.getElem?_eq_getElem h
  rw [field?, records_put, Array.getElem?_modify, if_pos rfl, hrecord]
  exact (lookup_assign _ _ _ v).trans (if_pos rfl)

/-- The other attributes are as before. -/
theorem field?_put_of_ne (s : Store) (p : Spot) (v : Value) {ref : ℕ} {name : String}
    (h : (ref, name) ≠ (p.ref, p.name)) : (s.put p v).field? ref name = s.field? ref name := by
  by_cases href : ref = p.ref
  · subst href
    have hname : name ≠ p.name := fun heq ↦ h (heq ▸ rfl)
    cases hrecord : s.records[p.ref]? <;>
      simp [field?, records_put, Array.getElem?_modify, hrecord, lookup_assign, hname]
  · rw [field?, field?, records_put_of_ne s p v href]

/-! ### Reading -/

/-- The value of an attribute, if it can be read. -/
def attribute? (s : Store) (v : Value) (name : String) : Option Value :=
  (Action.readAttribute v name s).1.toOption

theorem readAttribute_eq (s : Store) (v : Value) (name : String) :
    Action.readAttribute v name s =
      match s.attribute? v name with
      | some w => (.ok w, s)
      | none => Action.refuse (.noAttribute v.typeName name) s := by
  cases v with
  | record ref type =>
    simp only [attribute?, Action.readAttribute]
    cases s.field? ref name with
    | some w => rfl
    | none =>
      cases s.type? type with
      | none => rfl
      | some decl =>
        dsimp only
        split_ifs <;> rfl
  | moment m =>
    simp only [attribute?, Action.readAttribute]
    cases Value.momentPart? m name <;> rfl
  | fault id f =>
    simp only [attribute?, Action.readAttribute]
    cases Value.faultPart? f name <;> rfl
  | _ => rfl

/-- What an attribute reads depends on the declared types and, of a record, on this attribute. -/
theorem attribute?_congr {s s' : Store} (htypes : s'.types = s.types) {v : Value} {name : String}
    (hfield : ∀ ref type, v = .record ref type → s'.field? ref name = s.field? ref name) :
    s'.attribute? v name = s.attribute? v name := by
  cases v with
  | record ref type =>
    have hrecord := hfield ref type rfl
    have htype : s'.type? type = s.type? type := by rw [type?, type?, htypes]
    simp only [attribute?, Action.readAttribute, hrecord, htype]
    cases s.field? ref name with
    | some w => rfl
    | none =>
      cases s.type? type with
      | none => rfl
      | some decl =>
        dsimp only
        split_ifs <;> rfl
  | moment m =>
    simp only [attribute?, Action.readAttribute]
    cases Value.momentPart? m name <;> rfl
  | fault id f =>
    simp only [attribute?, Action.readAttribute]
    cases Value.faultPart? f name <;> rfl
  | _ => rfl

/-- The value that a path of attributes leads to. -/
def walk (s : Store) (v : Value) : List String → Option Value
  | [] => some v
  | name :: rest =>
    match s.attribute? v name with
    | some w => s.walk w rest
    | none => none

theorem walk_append (s : Store) (v : Value) (first second : List String) :
    s.walk v (first ++ second) = (s.walk v first).bind fun w ↦ s.walk w second := by
  induction first generalizing v with
  | nil => rfl
  | cons name rest ih =>
    simp only [List.cons_append, walk]
    cases s.attribute? v name with
    | none => rfl
    | some w => exact ih w

/-- A walk reads an attribute of a record after a part of its path. -/
def Visits (s : Store) (v : Value) (path before : List String) (ref : ℕ) (name : String) : Prop :=
  (∃ after, path = before ++ name :: after) ∧ ∃ type, s.walk v before = some (.record ref type)

theorem Visits.cons {s : Store} {v w : Value} {step name : String} {rest before : List String}
    {ref : ℕ} (hstep : s.attribute? v step = some w) (h : s.Visits w rest before ref name) :
    s.Visits v (step :: rest) (step :: before) ref name := by
  obtain ⟨⟨after, rfl⟩, type, hwalk⟩ := h
  refine ⟨⟨after, rfl⟩, type, ?_⟩
  rw [walk, hstep]
  exact hwalk

theorem visits_head {s : Store} {step : String} {rest : List String} {ref : ℕ} {type : String} :
    s.Visits (.record ref type) (step :: rest) [] ref step :=
  ⟨⟨rest, rfl⟩, type, rfl⟩

/-- What is read on a part of a path is read on the whole. -/
theorem Visits.of_prefix {s : Store} {v : Value} {path longer before : List String} {ref : ℕ}
    {name : String} (h : s.Visits v path before ref name) (hpath : path <+: longer) :
    s.Visits v longer before ref name := by
  obtain ⟨⟨after, rfl⟩, htype⟩ := h
  obtain ⟨more, rfl⟩ := hpath
  exact ⟨⟨after ++ more, by simp⟩, htype⟩

end Store

/-! ### Writing -/

/-- Why a write lands nowhere. -/
inductive Refusal where
  /-- There is nothing at all where this path leads. -/
  | nothing (path : List String)
  /-- An attribute cannot be read or written. -/
  | operand (e : OperandError)

/-- The fault of a refused write into a slot. -/
def Refusal.toFault (slot : Slot) : Refusal → Fault
  | .nothing path => Fault.slotPath slot.key (Slot.dotted (Slot.root :: path))
  | .operand e => .operand e

namespace Store

/-- The object that a path leads to from a value. -/
def reach (s : Store) (walked : List String) (v : Value) : List String → Except Refusal Value
  | [] => .ok v
  | step :: rest =>
    match s.attribute? v step with
    | none => .error (.operand (.noAttribute v.typeName step))
    | some .null => .error (.nothing (walked ++ [step]))
    | some w => s.reach (walked ++ [step]) w rest

/-- The attribute of an object that a write sets. -/
def accept (s : Store) (object : Value) (name : String) : Except OperandError Spot :=
  match object with
  | .record ref type =>
    match Action.writeRefusal? s type name with
    | some e => .error e
    | none => .ok ⟨ref, type, name⟩
  | .slot .. => .error (.frozenField name)
  | v => .error (.noAttribute v.typeName name)

/-- The attribute that a write into a slot sets; none for the whole target. -/
def landing (s : Store) (target : Value) (slot : Slot) : Except Refusal (Option Spot) :=
  match slot.path.getLast? with
  | none => .ok none
  | some name =>
    match s.reach [] target slot.path.dropLast with
    | .error r => .error r
    | .ok object =>
      match s.accept object name with
      | .error e => .error (.operand e)
      | .ok spot => .ok (some spot)

/-- A reach reads the path of valid segments one by one. -/
theorem reach_eq (s : Store) (slot : Slot) (walked : List String) (v : Value) {path : List String}
    (hpath : ∀ segment ∈ path, Text.isSegment segment = true) :
    Action.reach slot.key walked v path s =
      match s.reach walked v path with
      | .error r => Action.fail (r.toFault slot) s
      | .ok w => (.ok w, s) := by
  induction path generalizing walked v with
  | nil => rfl
  | cons step rest ih =>
    obtain ⟨hstep, hrest⟩ := List.forall_mem_cons.mp hpath
    have hread : Action.readStep v step s = Action.readAttribute v step s := by
      rw [Action.readStep, Text.split_segment hstep]
      simp only [Action.followNames, Action.bind, Action.done]
      rcases Action.readAttribute v step s with ⟨e | w, s'⟩ <;> rfl
    simp only [Action.reach, Action.bind, hread, readAttribute_eq, reach]
    cases hw : s.attribute? v step with
    | none => rfl
    | some w =>
      cases w with
      | null => rfl
      | _ => exact ih _ _ hrest

theorem writeAttribute_eq (s : Store) (object : Value) (name : String) (v : Value) :
    Action.writeAttribute object name v s =
      match s.accept object name with
      | .error e => Action.refuse e s
      | .ok spot => (.ok (), s.put spot v) := by
  cases object with
  | record ref type =>
    simp only [Action.writeAttribute, accept]
    cases Action.writeRefusal? s type name with
    | some e => rfl
    | none =>
      simp only [put]
      split_ifs <;> rfl
  | _ => rfl

/-- What is reached is where the path leads. -/
theorem walk_of_reach {s : Store} {walked path : List String} {v w : Value}
    (h : s.reach walked v path = .ok w) : s.walk v path = some w := by
  induction path generalizing walked v with
  | nil =>
    cases h
    rfl
  | cons step rest ih =>
    simp only [reach] at h
    simp only [walk]
    cases hw : s.attribute? v step with
    | none =>
      rw [hw] at h
      cases h
    | some u =>
      rw [hw] at h
      cases u with
      | null => cases h
      | _ => exact ih h

theorem reach_congr {s s' : Store} (htypes : s'.types = s.types) {walked path : List String}
    {v : Value} (hfields : ∀ before ref name, s.Visits v path before ref name →
      s'.field? ref name = s.field? ref name) : s'.reach walked v path = s.reach walked v path := by
  induction path generalizing walked v with
  | nil => rfl
  | cons step rest ih =>
    have hstep : s'.attribute? v step = s.attribute? v step :=
      attribute?_congr htypes fun ref type hv ↦ hfields [] ref step (hv ▸ visits_head)
    simp only [reach, hstep]
    cases hw : s.attribute? v step with
    | none => rfl
    | some w =>
      cases w with
      | null => rfl
      | _ => exact ih fun before ref name hvisit ↦ hfields _ ref name (hvisit.cons hw)

theorem accept_congr {s s' : Store} (htypes : s'.types = s.types) (object : Value) (name : String) :
    s'.accept object name = s.accept object name := by
  cases object with
  | record ref type => simp only [accept, Action.writeRefusal?, type?, htypes]
  | _ => rfl

theorem eq_of_accept_eq_ok {s : Store} {object : Value} {name : String} {spot : Spot}
    (h : s.accept object name = .ok spot) :
    object = .record spot.ref spot.type ∧ name = spot.name := by
  cases object with
  | record ref type =>
    simp only [accept] at h
    split at h
    · cases h
    · cases h
      exact ⟨rfl, rfl⟩
  | _ => cases h

/-- Where a write lands depends on the declared types and on the attributes read on the way. -/
theorem landing_congr {s s' : Store} (htypes : s'.types = s.types) {target : Value} {slot : Slot}
    (hfields : ∀ before ref name, s.Visits target slot.path.dropLast before ref name →
      s'.field? ref name = s.field? ref name) : s'.landing target slot = s.landing target slot := by
  simp only [landing, reach_congr htypes hfields, accept_congr htypes]

theorem path_eq_nil_of_landing {s : Store} {target : Value} {slot : Slot}
    (h : s.landing target slot = .ok none) : slot.path = [] := by
  unfold landing at h
  split at h
  next hlast => exact List.getLast?_eq_none_iff.mp hlast
  next =>
    split at h
    · cases h
    · split at h <;> cases h

theorem landing_of_path_eq_nil (s : Store) (target : Value) {slot : Slot} (h : slot.path = []) :
    s.landing target slot = .ok none := by
  rw [landing, h]
  rfl

/-- A write lands at the end of the path, on the object that the rest of the path leads to. -/
theorem exists_of_landing {s : Store} {target : Value} {slot : Slot} {spot : Spot}
    (h : s.landing target slot = .ok (some spot)) :
    ∃ parents, slot.path = parents ++ [spot.name] ∧
      s.walk target parents = some (.record spot.ref spot.type) := by
  unfold landing at h
  split at h
  next => cases h
  next name hlast =>
    split at h
    next => cases h
    next object hreach =>
      split at h
      next => cases h
      next p haccept =>
        cases h
        obtain ⟨rfl, rfl⟩ := eq_of_accept_eq_ok haccept
        exact ⟨slot.path.dropLast, (List.dropLast_append_getLast? _ hlast).symm,
          walk_of_reach hreach⟩

end Store

/-- All that a write does: it fails and leaves the store as it is, or it sets one attribute. -/
theorem Slot.write_eq {slot : Slot} (h : slot.IsValid) (target value : Value) (s : Store) :
    slot.write target value s =
      match s.landing target slot with
      | .error r => Action.fail (r.toFault slot) s
      | .ok none => (.ok value, s)
      | .ok (some spot) => (.ok target, s.put spot value) := by
  have hparents : ∀ segment ∈ slot.path.dropLast, Text.isSegment segment = true :=
    fun segment hmem ↦ h segment (List.dropLast_subset _ hmem)
  unfold Slot.write Store.landing
  cases slot.path.getLast? with
  | none => rfl
  | some name =>
    simp only [Action.bind, Store.reach_eq s slot [] target hparents]
    cases s.reach [] target slot.path.dropLast with
    | error r => rfl
    | ok object =>
      simp only [Store.writeAttribute_eq]
      cases s.accept object name <;> rfl

end Recast
