import Recast.Proofs.Interference
import Recast.Mapping.Mapper

/-!
Making targets. What is made of a type from nothing is neither an awaitable nor a fault object
(`Action.isOrdinary_of_construct`), and making it adds records and leaves those there were alone
(`Action.sameBelow_construct`), and the log as well (`Action.log_construct`). What making does to a
store is told once, by the few changes that it is made of (`Store.Growth`,
`Action.stays_construct`); so is what writing into a slot does (`Action.stays_write`).
-/

set_option autoImplicit false

namespace Recast

/-! ### Ordinary values -/

/-- The value is neither an awaitable nor a fault object. -/
def Value.IsOrdinary (v : Value) : Prop :=
  v.isAwaitable = false ∧ Mapper.failure? (.ok v) = none

namespace Action

/-- Whatever value the action gives is ordinary. -/
def GivesOrdinary (a : Action Value) : Prop := ∀ s v, (a s).1 = .ok v → v.IsOrdinary

theorem givesOrdinary_done {v : Value} (h : v.IsOrdinary) : GivesOrdinary (done v) := by
  intro s w hw
  cases hw
  exact h

theorem givesOrdinary_fail (f : Fault) : GivesOrdinary (fail f) := nofun

theorem givesOrdinary_bind {α : Type} {a : Action α} {f : α → Action Value}
    (h : ∀ x, GivesOrdinary (f x)) : GivesOrdinary (bind a f) := by
  intro s v hv
  rw [bind] at hv
  split at hv
  · exact h _ _ _ hv
  · cases hv

theorem givesOrdinary_ofDeclared (make : String → Action Value) (t : TypeDecl) :
    GivesOrdinary (ofDeclared make t) := by
  unfold ofDeclared
  split
  · exact givesOrdinary_bind fun _ ↦ givesOrdinary_bind fun _ ↦ givesOrdinary_fail _
  · exact givesOrdinary_fail _
  · refine givesOrdinary_bind fun fields ↦ ?_
    intro s v hv
    simp only [bind, newRecord, noteNew] at hv
    generalize t.newLabel = label at hv
    cases label with
    | none | some text =>
      cases hv
      exact ⟨rfl, rfl⟩

theorem givesOrdinary_ofBuiltin (type : String) : GivesOrdinary (ofBuiltin type) := by
  unfold ofBuiltin
  split
  all_goals first
    | exact givesOrdinary_done ⟨rfl, rfl⟩
    | exact givesOrdinary_bind fun _ ↦ givesOrdinary_done ⟨rfl, rfl⟩
    | exact givesOrdinary_fail _

theorem givesOrdinary_make (m : Model) (entries : List (Value × Value)) :
    GivesOrdinary (m.make entries) := by
  intro s v hv
  simp only [Model.make, Model.shape, Schema.check, Bind.bind, bind, Pure.pure] at hv
  generalize Schema.checkFields m.fields [] entries s = t at hv
  obtain ⟨e | ⟨issues, values⟩, s'⟩ := t
  · cases hv
  · cases issues with
    | nil =>
      cases hv
      exact ⟨rfl, rfl⟩
    | cons issue rest => cases hv

theorem givesOrdinary_constructAt (depth : ℕ) (type : String) :
    GivesOrdinary (constructAt depth type) := by
  cases depth with
  | zero => exact givesOrdinary_fail _
  | succ depth =>
    intro s v hv
    simp only [constructAt] at hv
    generalize s.type? type = decl at hv
    cases decl with
    | some t => exact givesOrdinary_ofDeclared _ t s v hv
    | none =>
      generalize Model.find? type = model at hv
      cases model with
      | some m => exact givesOrdinary_make m [] s v hv
      | none => exact givesOrdinary_ofBuiltin type s v hv

/-- What is made of a type from nothing is neither an awaitable nor a fault object. -/
theorem isOrdinary_of_construct {type : String} {s s' : Store} {v : Value}
    (h : construct type s = (.ok v, s')) : v.IsOrdinary :=
  givesOrdinary_constructAt _ type s v (congrArg Prod.fst h)

end Action

/-! ### Making only adds -/

/-- The relation covers what may become of a store while something is made: numbers are handed out,
records are added, events are noted, and attributes of records from a position on are set. -/
structure Store.Growth (base : ℕ) (R : Store → Store → Prop) : Prop where
  refl (s : Store) : R s s
  trans {s s' s'' : Store} (h : R s s') (h' : R s' s'') : R s s''
  size_le {s s' : Store} (h : R s s') : s.records.size ≤ s'.records.size
  count (s : Store) : R s { s with nextId := s.nextId + 1 }
  push (s : Store) (record : Record) (h : base ≤ s.records.size) :
    R s { s with records := s.records.push record }
  note (s : Store) (trace : List Event) : R s { s with trace := trace }
  set (s : Store) {ref : ℕ} (name : String) (v : Value) (h : base ≤ ref) :
    R s (s.setField ref name v)

namespace Action

/-- Wherever there are records up to a position at least, the action stays in a relation. -/
def Stays {α : Type} (base : ℕ) (R : Store → Store → Prop) (a : Action α) : Prop :=
  ∀ s : Store, base ≤ s.records.size → R s (a s).2

/-- A record that the action gives lies above a position. -/
def GivesFrom (base : ℕ) (a : Action Value) : Prop :=
  ∀ (s : Store) ref type, base ≤ s.records.size → (a s).1 = .ok (.record ref type) → base ≤ ref

section Stays

variable {α β : Type} {base : ℕ} {R : Store → Store → Prop} (hR : Store.Growth base R)

include hR

theorem stays_done (x : α) : Stays base R (done x) := fun s _ ↦ hR.refl s

theorem stays_fail (f : Fault) : Stays (α := α) base R (fail f) := fun s _ ↦ hR.count s

theorem stays_bind {x : Action α} {f : α → Action β} (hx : Stays base R x)
    (hf : ∀ a, Stays base R (f a)) : Stays base R (bind x f) := by
  intro s hs
  have hfirst := hx s hs
  rw [bind]
  generalize x s = t at hfirst ⊢
  obtain ⟨e | a, s'⟩ := t
  · exact hfirst
  · exact hR.trans hfirst (hf a s' (hs.trans (hR.size_le hfirst)))

theorem stays_fresh : Stays base R fresh := fun s _ ↦ hR.count s

theorem stays_newList (items : List Value) : Stays base R (newList items) :=
  stays_bind hR (stays_fresh hR) fun _ ↦ stays_done hR _

theorem stays_newTuple (items : List Value) : Stays base R (newTuple items) :=
  stays_bind hR (stays_fresh hR) fun _ ↦ stays_done hR _

theorem stays_newDict (entries : List (Value × Value)) : Stays base R (newDict entries) :=
  stays_bind hR (stays_fresh hR) fun _ ↦ stays_done hR _

theorem stays_newRecord (type : String) (fields : List (String × Value)) :
    Stays base R (newRecord type fields) := fun s hs ↦ hR.push s _ hs

theorem stays_noteNew (t : TypeDecl) : Stays base R (noteNew t) := by
  unfold noteNew
  split
  · exact fun s _ ↦ hR.note s _
  · exact stays_done hR ()

theorem stays_readAttribute (v : Value) (name : String) :
    Stays base R (readAttribute v name) := by
  intro s hs
  rw [Store.readAttribute_eq]
  split
  · exact hR.refl s
  · exact stays_fail hR _ s hs

theorem stays_itemAt (items : List Value) (step : String) : Stays base R (itemAt items step) := by
  unfold itemAt
  split
  · dsimp only
    split
    · exact stays_done hR _
    · exact stays_fail hR _
  · exact stays_fail hR _

theorem stays_follow (v : Value) (step : String) : Stays base R (follow v step) := by
  unfold follow
  split
  · exact stays_itemAt hR _ _
  · exact stays_itemAt hR _ _
  · split
    · exact stays_done hR _
    · exact stays_readAttribute hR _ _
  · exact stays_readAttribute hR _ _

theorem stays_followAll (v : Value) (path : List String) : Stays base R (followAll v path) := by
  induction path generalizing v with
  | nil => exact stays_done hR v
  | cons step rest ih => exact stays_bind hR (stays_follow hR v step) ih

theorem stays_readVariable (name : String) : Stays base R (readVariable name) := by
  intro s hs
  rw [readVariable]
  split
  · exact hR.refl s
  · exact stays_fail hR _ s hs

theorem stays_makeFault (kind : String) (args : List Value) :
    Stays base R (makeFault kind args) := by
  intro s hs
  rw [makeFault]
  split
  · exact hR.refl s
  · exact stays_fail hR _ s hs

theorem stays_hashable (key : Value) : Stays base R (hashable key) := by
  intro s hs
  rw [hashable]
  split
  · exact stays_fail hR _ s hs
  · exact hR.refl s

/-! ### Models -/

theorem stays_checkItems {check : List Place → Value → Action Schema.Finding}
    (hcheck : ∀ place v, Stays base R (check place v)) (place : List Place) (n : ℕ)
    (items : List Value) : Stays base R (Schema.checkItems check place n items) := by
  induction items generalizing n with
  | nil => exact stays_done hR _
  | cons v rest ih =>
    refine stays_bind hR (hcheck _ v) fun one ↦ stays_bind hR (ih _) fun found ↦ ?_
    cases one <;> exact stays_done hR _

mutual

theorem stays_check : ∀ (shape : Shape) (place : List Place) (v : Value),
    Stays base R (Schema.check shape place v)
  | .text, _, _ => stays_done hR _
  | .integer, _, _ => stays_done hR _
  | .moment, _, _ => stays_done hR _
  | .optional shape, place, v => by
    rw [Schema.check.eq_def]
    dsimp only
    split
    · exact stays_done hR _
    · exact stays_check shape place v
  | .listOf shape, place, v => by
    rw [Schema.check.eq_def]
    dsimp only
    split
    · refine stays_bind hR (stays_checkItems hR (stays_check shape) _ _ _) fun found ↦ ?_
      split
      · exact stays_bind hR (stays_newList hR _) fun _ ↦ stays_done hR _
      · exact stays_done hR _
    · refine stays_bind hR (stays_checkItems hR (stays_check shape) _ _ _) fun found ↦ ?_
      split
      · exact stays_bind hR (stays_newList hR _) fun _ ↦ stays_done hR _
      · exact stays_done hR _
    · exact stays_done hR _
  | .model name extra fields, place, v => by
    rw [Schema.check.eq_def]
    dsimp only
    split
    · exact stays_done hR _
    · refine stays_bind hR (stays_checkFields fields _ _) fun found ↦ ?_
      split
      · exact stays_bind hR (stays_newRecord hR _ _) fun _ ↦ stays_done hR _
      · exact stays_done hR _
    · exact stays_done hR _

theorem stays_checkFields : ∀ (fields : List (String × Shape × FieldDefault))
    (place : List Place) (entries : List (Value × Value)),
    Stays base R (Schema.checkFields fields place entries)
  | [], _, _ => stays_done hR _
  | (name, shape, default) :: rest, place, entries => by
    rw [Schema.checkFields.eq_def]
    dsimp only
    have hrest (one : Schema.Finding) : Stays base R (do
        let (issues, values) ← Schema.checkFields rest place entries
        match one with
        | .ok v => return (issues, (name, v) :: values)
        | .error found => return (found ++ issues, values)) :=
      stays_bind hR (stays_checkFields rest _ _) fun _ ↦ by cases one <;> exact stays_done hR _
    split
    · exact stays_bind hR (stays_check shape _ _) hrest
    · split
      · exact stays_bind hR (stays_done hR _) hrest
      · exact stays_bind hR (stays_done hR _) hrest
      · exact stays_bind hR (stays_done hR _) hrest
      · exact stays_bind hR (stays_done hR _) hrest
      · exact stays_bind hR (stays_bind hR (stays_newList hR _) fun _ ↦ stays_done hR _) hrest
      · exact stays_bind hR (stays_check shape _ _) hrest

end

theorem stays_make (m : Model) (entries : List (Value × Value)) :
    Stays base R (m.make entries) := by
  refine stays_bind hR (stays_check hR _ _ _) fun found ↦ ?_
  cases found with
  | ok v => exact stays_done hR v
  | error issues => exact stays_fail hR _

theorem stays_forEach {f : α → Action β} (hf : ∀ a, Stays base R (f a)) (items : List α) :
    Stays base R (forEach f items) := by
  induction items with
  | nil => exact stays_done hR _
  | cons a rest ih =>
    exact stays_bind hR (hf a) fun _ ↦ stays_bind hR ih fun _ ↦ stays_done hR _

theorem stays_makeRaw (m : Model) (given : List (String × Value)) :
    Stays base R (m.makeRaw given) := by
  refine stays_bind hR (stays_forEach hR ?_ m.fields) fun fields ↦ stays_newRecord hR _ _
  rintro ⟨name, shape, default⟩
  dsimp only
  split
  · exact stays_done hR _
  · split
    · exact stays_done hR _
    · exact stays_done hR _
    · exact stays_done hR _
    · exact stays_done hR _
    · exact stays_bind hR (stays_newList hR _) fun _ ↦ stays_done hR _
    · refine stays_bind hR (stays_check hR _ _ _) fun found ↦ ?_
      cases found <;> exact stays_done hR _

/-! ### Templates -/

theorem stays_overwrite {v : Value} (hv : ∀ ref type, v = .record ref type → base ≤ ref)
    (fields : List (String × Value)) : Stays base R (overwrite v fields) := by
  unfold overwrite
  split
  next ref type =>
    refine stays_bind hR (fun s _ ↦ ?_) fun _ ↦ stays_done hR _
    have href := hv ref type rfl
    simp only [change]
    induction fields generalizing s with
    | nil => exact hR.refl s
    | cons field rest ih =>
      have hset := hR.set s field.1 field.2 href
      exact hR.trans hset (ih _ (le_trans ‹_› (hR.size_le hset)))
  next => exact stays_done hR v

/-- Making a record of a type stays in the relation, and a record so made is new. -/
def MakesFrom (base : ℕ) (R : Store → Store → Prop) (make : String → Action Value) : Prop :=
  ∀ type, Stays base R (make type) ∧ GivesFrom base (make type)

variable {make : String → Action Value}

theorem stays_overwritten (hmake : MakesFrom base R make) (type : String)
    (fields : List (String × Value)) :
    Stays base R (bind (make type) fun v ↦ overwrite v fields) := by
  intro s hs
  have hfirst := (hmake type).1 s hs
  have hgives := (hmake type).2 s
  rw [bind]
  generalize make type s = t at hfirst hgives ⊢
  obtain ⟨e | v, s'⟩ := t
  · exact hfirst
  · refine hR.trans hfirst (stays_overwrite hR (fun ref other hv ↦ ?_) fields s'
      (hs.trans (hR.size_le hfirst)))
    exact hgives ref other hs (congrArg Except.ok hv)

theorem stays_recordOf (hmake : MakesFrom base R make) (type : String)
    (fields : List (String × Value)) : Stays base R (recordOf make type fields) := by
  intro s hs
  rw [recordOf]
  split
  · exact stays_make hR _ _ s hs
  · exact stays_overwritten hR hmake type fields s hs

theorem stays_rawRecordOf (hmake : MakesFrom base R make) (type : String)
    (fields : List (String × Value)) : Stays base R (rawRecordOf make type fields) := by
  intro s hs
  rw [rawRecordOf]
  split
  · exact stays_makeRaw hR _ _ s hs
  · exact stays_overwritten hR hmake type fields s hs

mutual

theorem stays_ofTemplate (hmake : MakesFrom base R make) :
    ∀ t : Template, Stays base R (ofTemplate make t)
  | .null => stays_done hR _
  | .bool _ => stays_done hR _
  | .int _ => stays_done hR _
  | .float _ => stays_done hR _
  | .text _ => stays_done hR _
  | .bytes _ => stays_done hR _
  | .moment _ => stays_done hR _
  | .list items => stays_bind hR (stays_ofTemplates hmake items) (stays_newList hR)
  | .tuple items => stays_bind hR (stays_ofTemplates hmake items) (stays_newTuple hR)
  | .dict entries => stays_bind hR (stays_ofEntries hmake entries) fun _ ↦ stays_newDict hR _
  | .slot _ => stays_bind hR (stays_fresh hR) fun _ ↦ stays_done hR _
  | .fault kind args =>
    stays_bind hR (stays_ofTemplates hmake args) fun vs ↦
      stays_bind hR (stays_makeFault hR kind vs) fun _ ↦
        stays_bind hR (stays_fresh hR) fun _ ↦ stays_done hR _
  | .record type fields =>
    stays_bind hR (stays_ofFields hmake fields) (stays_recordOf hR hmake type)
  | .blank type => (hmake type).1
  | .raw type fields =>
    stays_bind hR (stays_ofFields hmake fields) (stays_rawRecordOf hR hmake type)
  | .variable name path => stays_bind hR (stays_readVariable hR name) fun v ↦
      stays_followAll hR v path

theorem stays_ofTemplates (hmake : MakesFrom base R make) :
    ∀ items : List Template, Stays base R (ofTemplates make items)
  | [] => stays_done hR _
  | t :: rest => stays_bind hR (stays_ofTemplate hmake t) fun _ ↦
      stays_bind hR (stays_ofTemplates hmake rest) fun _ ↦ stays_done hR _

theorem stays_ofEntries (hmake : MakesFrom base R make) :
    ∀ entries : List (Template × Template), Stays base R (ofEntries make entries)
  | [] => stays_done hR _
  | (k, v) :: rest =>
    stays_bind hR (stays_ofTemplate hmake k) fun k ↦
      stays_bind hR (stays_ofTemplate hmake v) fun _ ↦
        stays_bind hR (stays_hashable hR k) fun _ ↦
          stays_bind hR (stays_ofEntries hmake rest) fun _ ↦ stays_done hR _

theorem stays_ofFields (hmake : MakesFrom base R make) :
    ∀ fields : List (String × Template), Stays base R (ofFields make fields)
  | [] => stays_done hR _
  | (_, t) :: rest => stays_bind hR (stays_ofTemplate hmake t) fun _ ↦
      stays_bind hR (stays_ofFields hmake rest) fun _ ↦ stays_done hR _

end

/-! ### Types -/

theorem stays_ofDeclared (hmake : MakesFrom base R make) (t : TypeDecl) :
    Stays base R (ofDeclared make t) := by
  unfold ofDeclared
  split
  · exact stays_bind hR (stays_ofTemplates hR hmake _) fun vs ↦
      stays_bind hR (stays_makeFault hR _ vs) (stays_fail hR)
  · exact stays_fail hR _
  · exact stays_bind hR (stays_ofFields hR hmake _) fun _ ↦
      stays_bind hR (stays_newRecord hR _ _) fun _ ↦
        stays_bind hR (stays_noteNew hR t) fun _ ↦ stays_done hR _

theorem stays_ofBuiltin (type : String) : Stays base R (ofBuiltin type) := by
  unfold ofBuiltin
  split
  all_goals first
    | exact stays_done hR _
    | exact stays_bind hR (stays_fresh hR) fun _ ↦ stays_done hR _
    | exact stays_fail hR _

/-- A record that is made after something that only adds is new. -/
theorem givesFrom_bind {x : Action α} (hx : Stays base R x) {f : α → Action Value}
    (hf : ∀ a, GivesFrom base (f a)) : GivesFrom base (bind x f) := by
  intro s ref type hs hv
  have hfirst := hx s hs
  rw [bind] at hv
  generalize x s = t at hfirst hv
  obtain ⟨e | a, s'⟩ := t
  · cases hv
  · exact hf a s' ref type (hs.trans (hR.size_le hfirst)) hv

omit hR in
theorem givesFrom_fail (f : Fault) : GivesFrom base (fail f) := nofun

theorem givesFrom_ofDeclared (hmake : MakesFrom base R make) (t : TypeDecl) :
    GivesFrom base (ofDeclared make t) := by
  unfold ofDeclared
  split
  · exact givesFrom_bind hR (stays_ofTemplates hR hmake _) fun vs ↦
      givesFrom_bind hR (stays_makeFault hR _ vs) givesFrom_fail
  · exact givesFrom_fail _
  · refine givesFrom_bind hR (stays_ofFields hR hmake _) fun fields s ref type hs hv ↦ ?_
    simp only [bind, newRecord, noteNew] at hv
    generalize t.newLabel = label at hv
    cases label with
    | none | some text =>
      cases hv
      exact hs

omit hR in
theorem givesFrom_ofBuiltin (type : String) : GivesFrom base (ofBuiltin type) := by
  unfold ofBuiltin
  split
  all_goals exact nofun

theorem givesFrom_make (m : Model) (entries : List (Value × Value)) :
    GivesFrom base (m.make entries) := by
  intro s ref type hs hv
  have hfields := stays_checkFields hR m.fields [] entries s hs
  simp only [Model.make, Model.shape, Schema.check, Bind.bind, bind, Pure.pure] at hv
  generalize Schema.checkFields m.fields [] entries s = t at hfields hv
  obtain ⟨e | ⟨issues, values⟩, s'⟩ := t
  · cases hv
  · cases issues with
    | nil =>
      cases hv
      exact hs.trans (hR.size_le hfields)
    | cons issue rest => cases hv

theorem makesFrom_constructAt (depth : ℕ) : MakesFrom base R (constructAt depth) := by
  induction depth with
  | zero => exact fun type ↦ ⟨stays_fail hR _, givesFrom_fail _⟩
  | succ depth ih =>
    refine fun type ↦ ⟨fun s hs ↦ ?_, fun s ref other hs hv ↦ ?_⟩
    · simp only [constructAt]
      cases s.type? type with
      | some t => exact stays_ofDeclared hR ih t s hs
      | none =>
        cases Model.find? type with
        | some m => exact stays_make hR m [] s hs
        | none => exact stays_ofBuiltin hR type s hs
    · simp only [constructAt] at hv
      generalize s.type? type = decl at hv
      cases decl with
      | some t => exact givesFrom_ofDeclared hR ih t s ref other hs hv
      | none =>
        generalize Model.find? type = model at hv
        cases model with
        | some m => exact givesFrom_make hR m [] s ref other hs hv
        | none => exact givesFrom_ofBuiltin type s ref other hs hv

/-- Making a value of a type from nothing stays in the relation. -/
theorem stays_construct (type : String) : Stays base R (construct type) := fun s hs ↦
  (makesFrom_constructAt hR _ type).1 s hs

/-! ### Writing into a slot -/

theorem stays_followNames (v : Value) (names : List String) :
    Stays base R (followNames v names) := by
  induction names generalizing v with
  | nil => exact stays_done hR v
  | cons name rest ih => exact stays_bind hR (stays_readAttribute hR v name) ih

theorem stays_reach (key : String) (walked : List String) (v : Value) (path : List String) :
    Stays base R (reach key walked v path) := by
  induction path generalizing walked v with
  | nil => exact stays_done hR v
  | cons step rest ih =>
    refine stays_bind hR (stays_followNames hR v _) fun w ↦ ?_
    cases w with
    | null => exact stays_fail hR _
    | _ => exact ih _ _

end Stays

/-- Wherever a write leads, it stays in a relation that covers the setting of attributes. -/
theorem stays_write {R : Store → Store → Prop} (hR : Store.Growth 0 R) (slot : Slot)
    (target v : Value) : Stays 0 R (slot.write target v) := by
  unfold Slot.write
  cases slot.path.getLast? with
  | none => exact stays_done hR v
  | some name =>
    refine stays_bind hR (stays_reach hR _ _ _ _) fun object ↦
      stays_bind hR (fun s _ ↦ ?_) fun _ ↦ stays_done hR target
    rw [Store.writeAttribute_eq]
    split
    · exact hR.count s
    · next spot _ =>
      have hset := hR.set s spot.name v (Nat.zero_le spot.ref)
      rw [Store.put]
      split_ifs
      · exact hR.trans hset (hR.note _ _)
      · exact hset

end Action

/-! ### What making and writing leave alone -/

theorem Store.growth_sameBelow (base : ℕ) : Growth base (SameBelow base) where
  refl := .refl base
  trans h h' := h.trans h'
  size_le h := h.size_le
  count := sameBelow_count base
  push s record h := by
    refine ⟨rfl, rfl, rfl, rfl, rfl, rfl, rfl, rfl, by simp, fun ref href ↦ ?_⟩
    exact (Array.getElem?_push_lt (href.trans_le h)).trans
      (Array.getElem?_eq_getElem (href.trans_le h)).symm
  note _ _ := ⟨rfl, rfl, rfl, rfl, rfl, rfl, rfl, rfl, le_rfl, fun _ _ ↦ rfl⟩
  set s ref name v h := by
    refine ⟨rfl, rfl, rfl, rfl, rfl, rfl, rfl, rfl, ?_, fun other hother ↦ ?_⟩
    · rw [setField, Array.size_modify]
    · rw [setField, Array.getElem?_modify, if_neg (by omega)]

/-- The log is as it was. -/
def Store.SameLog (s s' : Store) : Prop := s'.log = s.log ∧ s.records.size ≤ s'.records.size

theorem Store.growth_sameLog : Growth 0 SameLog where
  refl _ := ⟨rfl, le_rfl⟩
  trans h h' := ⟨h'.1.trans h.1, h.2.trans h'.2⟩
  size_le h := h.2
  count _ := ⟨rfl, le_rfl⟩
  push _ _ _ := ⟨rfl, by simp⟩
  note _ _ := ⟨rfl, le_rfl⟩
  set s ref name v _ := ⟨rfl, by rw [setField, Array.size_modify]⟩

namespace Action

/-- Wherever there are records up to a position at least, the action leaves those below it alone,
and everything else but the numbers handed out and what is noted of the run. -/
def AddsFrom {α : Type} (base : ℕ) (a : Action α) : Prop :=
  ∀ s : Store, base ≤ s.records.size → s.SameBelow base (a s).2

section Adds

variable {α β : Type} {base : ℕ}

theorem addsFrom_done (x : α) : AddsFrom base (done x) := stays_done (Store.growth_sameBelow base) x

theorem addsFrom_fail (f : Fault) : AddsFrom (α := α) base (fail f) :=
  stays_fail (Store.growth_sameBelow base) f

theorem addsFrom_bind {x : Action α} {f : α → Action β} (hx : AddsFrom base x)
    (hf : ∀ a, AddsFrom base (f a)) : AddsFrom base (bind x f) :=
  stays_bind (Store.growth_sameBelow base) hx hf

end Adds

/-- Making a value of a type from nothing adds records and leaves those there were alone. -/
theorem sameBelow_construct (type : String) (s : Store) :
    s.SameBelow s.records.size (construct type s).2 :=
  stays_construct (Store.growth_sameBelow _) type s le_rfl

/-- It leaves the log alone. -/
theorem log_construct (type : String) (s : Store) : (construct type s).2.log = s.log :=
  (stays_construct Store.growth_sameLog type s (Nat.zero_le _)).1

end Action

/-- Wherever a write leads, it changes records at most. -/
theorem Slot.addsFrom_write (slot : Slot) (target v : Value) :
    Action.AddsFrom 0 (slot.write target v) :=
  Action.stays_write (Store.growth_sameBelow 0) slot target v

/-- It leaves the log alone. -/
theorem Slot.log_write (slot : Slot) (target v : Value) (s : Store) :
    (slot.write target v s).2.log = s.log :=
  (Action.stays_write Store.growth_sameLog slot target v s (Nat.zero_le _)).1

end Recast
