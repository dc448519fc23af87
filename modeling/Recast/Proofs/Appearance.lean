import Recast.Proofs.Plan

/-!
What can be seen of a value. Values are looked at from outside, attribute by attribute and item by
item; the numbers by which objects are told apart are not seen (`Store.look`). Where a write is
refused can be told from what is seen of the target (`Store.refusal?_congr`), and a write further
down is refused exactly when it is refused on the object there
(`Store.refusal?_extend_eq_none_iff`).
-/

set_option autoImplicit false

namespace Recast

/-! ### Looking at values -/

/-- A step into a value. -/
inductive Access where
  | member (name : String)
  | item (n : ℕ)
  | key (n : ℕ)
  | entry (n : ℕ)
  | argument (n : ℕ)
  deriving DecidableEq

/-- The steps along a path of attributes. -/
def Access.along (path : List String) : List Access := path.map .member

theorem Access.along_append (path more : List String) :
    along (path ++ more) = along path ++ along more := List.map_append

theorem Access.along_injective {path path' : List String} (h : along path = along path') :
    path = path' :=
  List.map_injective_iff.mpr (fun _ _ ↦ Access.member.inj) h

/-- A fault without its parts. -/
def Fault.shell : Fault → Fault
  | .application cls .. => .application cls .null .null .null .null
  | .general kind _ => .general kind []
  | f => f

namespace Value

/-- A value without its parts and without the numbers by which objects are told apart. -/
def shell : Value → Value
  | .list .. => .list 0 []
  | .tuple .. => .tuple 0 []
  | .dict .. => .dict 0 []
  | .slot _ path => .slot 0 path
  | .record _ type => .record 0 type
  | .fault _ f => .fault 0 f.shell
  | .function _ asynchronous => .function 0 asynchronous
  | .awaitable kind _ => .awaitable kind 0
  | .stream _ => .stream 0
  | v => v

theorem typeName_shell (v : Value) : v.shell.typeName = v.typeName := by
  cases v with
  | fault id f => cases f <;> rfl
  | _ => rfl

/-- The part of a value that is no attribute. -/
def part? : Value → Access → Option Value
  | .list _ items, .item n | .tuple _ items, .item n => items[n]?
  | .dict _ entries, .key n => entries[n]?.map Prod.fst
  | .dict _ entries, .entry n => entries[n]?.map Prod.snd
  | .fault _ (.general _ args), .argument n => args[n]?
  | _, _ => none

end Value

namespace Store

/-- The part of a value that a step leads to. -/
def access (s : Store) (v : Value) : Access → Option Value
  | .member name => s.attribute? v name
  | a => v.part? a

/-- The part of a value that steps lead to. -/
def descend (s : Store) (v : Value) : List Access → Option Value
  | [] => some v
  | a :: rest => (s.access v a).bind fun w ↦ s.descend w rest

/-- What is seen of a value at the end of steps into it. -/
def look (s : Store) (v : Value) (path : List Access) : Option Value :=
  (s.descend v path).map Value.shell

theorem descend_append (s : Store) (v : Value) (path more : List Access) :
    s.descend v (path ++ more) = (s.descend v path).bind fun w ↦ s.descend w more := by
  induction path generalizing v with
  | nil => rfl
  | cons a rest ih =>
    simp only [List.cons_append, descend, Option.bind_assoc]
    exact congrArg _ (funext ih)

theorem descend_along (s : Store) (v : Value) (path : List String) :
    s.descend v (Access.along path) = s.walk v path := by
  induction path generalizing v with
  | nil => rfl
  | cons name rest ih =>
    simp only [Access.along, List.map_cons, descend, access, walk]
    cases s.attribute? v name with
    | none => rfl
    | some w => exact ih w

/-- A step reads the declared types and, of a record, the attribute that it leads to. -/
theorem access_congr {s s' : Store} (htypes : s'.types = s.types) {v : Value} {a : Access}
    (hfield : ∀ name ref type, a = .member name → v = .record ref type →
      s'.field? ref name = s.field? ref name) : s'.access v a = s.access v a := by
  cases a with
  | member name => exact attribute?_congr htypes fun ref type hv ↦ hfield name ref type rfl hv
  | _ => rfl

theorem look_append {s : Store} {v w : Value} {path : List Access}
    (h : s.descend v path = some w) (more : List Access) :
    s.look v (path ++ more) = s.look w more := by
  rw [look, descend_append, h]
  rfl

/-- What has no parts looks the same everywhere. -/
theorem look_eq_of_access {v : Value} (h : ∀ s a, Store.access s v a = none) (s s' : Store) :
    s'.look v = s.look v := by
  funext path
  cases path with
  | nil => rfl
  | cons a rest => simp only [look, descend, h, Option.bind_none]

/-- Records of a type look the same when their attributes do. -/
theorem look_record {s s' : Store} {ref ref' : ℕ} {type : String}
    (h : ∀ name, (s.attribute? (.record ref type) name = none ∧
        s'.attribute? (.record ref' type) name = none) ∨
      ∃ w w', s.attribute? (.record ref type) name = some w ∧
        s'.attribute? (.record ref' type) name = some w' ∧ s'.look w' = s.look w) :
    s'.look (.record ref' type) = s.look (.record ref type) := by
  funext path
  cases path with
  | nil => rfl
  | cons a rest =>
    cases a with
    | member name =>
      rcases h name with ⟨hnone, hnone'⟩ | ⟨w, w', hw, hw', hlook⟩
      · simp only [look, descend, access, hnone, hnone', Option.bind_none]
      · simp only [look, descend, access, hw, hw', Option.bind_some]
        exact congrFun hlook rest
    | _ => rfl

/-- A record of a type without read-only attributes has its fields as attributes. -/
theorem attribute?_record {s : Store} {ref : ℕ} {type : String} {r : Record}
    (h : s.records[ref]? = some r) (htype : ∀ t, s.type? type = some t → t.readOnly = [])
    (name : String) : s.attribute? (.record ref type) name = r.fields.lookup name := by
  have hfield : s.field? ref name = r.fields.lookup name := by rw [field?, h]; rfl
  simp only [attribute?, Action.readAttribute, hfield]
  cases r.fields.lookup name with
  | some w => rfl
  | none =>
    cases ht : s.type? type with
    | none => rfl
    | some t => simp [htype t ht, Action.refuse, Action.fail, Except.toOption]

/-! ### Refused writes -/

section Alike

variable {s s' : Store} {v v' : Value}

theorem shell_eq_of_look (h : s'.look v' = s.look v) : v'.shell = v.shell :=
  Option.some.inj (congrFun h [])

theorem typeName_eq_of_look (h : s'.look v' = s.look v) : v'.typeName = v.typeName := by
  rw [← v'.typeName_shell, shell_eq_of_look h, v.typeName_shell]

/-- Of values that look alike, the parts look alike. -/
theorem attribute?_of_look (h : s'.look v' = s.look v) (name : String) :
    s.attribute? v name = none ∧ s'.attribute? v' name = none ∨
      ∃ w w', s.attribute? v name = some w ∧ s'.attribute? v' name = some w' ∧
        s'.look w' = s.look w := by
  have hpart : ∀ rest, ((s'.attribute? v' name).bind fun w ↦ s'.descend w rest).map Value.shell =
      ((s.attribute? v name).bind fun w ↦ s.descend w rest).map Value.shell :=
    fun rest ↦ congrFun h (.member name :: rest)
  cases hw : s.attribute? v name with
  | none =>
    cases hw' : s'.attribute? v' name with
    | none => exact Or.inl ⟨rfl, rfl⟩
    | some w' =>
      have hnil := hpart []
      rw [hw, hw'] at hnil
      cases hnil
  | some w =>
    cases hw' : s'.attribute? v' name with
    | none =>
      have hnil := hpart []
      rw [hw, hw'] at hnil
      cases hnil
    | some w' =>
      refine Or.inr ⟨w, w', rfl, rfl, funext fun rest ↦ ?_⟩
      have hrest := hpart rest
      rwa [hw, hw'] at hrest

theorem reach_of_look (h : s'.look v' = s.look v) (walked path : List String) :
    (∃ r, s.reach walked v path = .error r ∧ s'.reach walked v' path = .error r) ∨
      ∃ w w', s.reach walked v path = .ok w ∧ s'.reach walked v' path = .ok w' ∧
        s'.look w' = s.look w := by
  induction path generalizing walked v v' with
  | nil => exact Or.inr ⟨v, v', rfl, rfl, h⟩
  | cons step rest ih =>
    simp only [reach]
    rcases attribute?_of_look h step with ⟨hw, hw'⟩ | ⟨w, w', hw, hw', hlook⟩
    · rw [hw, hw', typeName_eq_of_look h]
      exact Or.inl ⟨_, rfl, rfl⟩
    · rw [hw, hw']
      have hshell := shell_eq_of_look hlook
      cases w <;> cases w' <;> first
        | cases hshell; done
        | exact Or.inl ⟨_, rfl, rfl⟩
        | exact ih hlook _

/-- Values that look alike accept the same attributes. -/
theorem accept_of_look (htypes : s'.types = s.types) (h : s'.look v' = s.look v) (name : String) :
    (∃ e, s.accept v name = .error e ∧ s'.accept v' name = .error e) ∨
      ∃ p p', s.accept v name = .ok p ∧ s'.accept v' name = .ok p' := by
  have hshell := shell_eq_of_look h
  have htype : (.error (.noAttribute v'.typeName name) : Except OperandError Spot) =
      .error (.noAttribute v.typeName name) := by rw [typeName_eq_of_look h]
  cases v with
  | record ref type =>
    cases v' with
    | record ref' type' =>
      cases hshell
      simp only [accept, Action.writeRefusal?, type?, htypes]
      split
      next e _ => exact Or.inl ⟨e, rfl, rfl⟩
      next => exact Or.inr ⟨_, _, rfl, rfl⟩
    | _ => cases hshell
  | slot id path =>
    cases v' with
    | slot id' path' => exact Or.inl ⟨_, rfl, rfl⟩
    | _ => cases hshell
  | _ =>
    cases v' with
    | record | slot => cases hshell
    | _ => exact Or.inl ⟨_, rfl, htype⟩

end Alike

/-- Why a write is refused, if it is. -/
def refusal? (s : Store) (target : Value) (slot : Slot) : Option Refusal :=
  match s.landing target slot with
  | .error r => some r
  | .ok _ => none

theorem refusal?_eq_none_iff {s : Store} {target : Value} {slot : Slot} :
    s.refusal? target slot = none ↔ ∃ place, s.landing target slot = .ok place := by
  unfold refusal?
  split
  next r h => simp [h]
  next place h => simp [h]

/-- Targets that look alike refuse the same writes, and for the same reasons. -/
theorem refusal?_congr {s s' : Store} (htypes : s'.types = s.types) {v v' : Value}
    (h : s'.look v' = s.look v) (slot : Slot) : s'.refusal? v' slot = s.refusal? v slot := by
  unfold refusal? landing
  cases slot.path.getLast? with
  | none => rfl
  | some name =>
    dsimp only
    rcases reach_of_look h [] slot.path.dropLast with ⟨r, hr, hr'⟩ | ⟨w, w', hw, hw', hlook⟩
    · rw [hr, hr']
    · rw [hw, hw']
      dsimp only
      rcases accept_of_look htypes hlook name with ⟨e, he, he'⟩ | ⟨p, p', hp, hp'⟩
      · rw [he, he']
      · rw [hp, hp']

/-! ### Writes further down -/

section Extend

variable {s : Store}

theorem reach_append (s : Store) (walked : List String) (v : Value) (path more : List String) :
    s.reach walked v (path ++ more) =
      match s.reach walked v path with
      | .error r => .error r
      | .ok w => s.reach (walked ++ path) w more := by
  induction path generalizing walked v with
  | nil => simp [reach]
  | cons step rest ih =>
    simp only [List.cons_append, reach]
    cases s.attribute? v step with
    | none => rfl
    | some w =>
      cases w with
      | null => rfl
      | _ => simp only [ih, List.append_assoc, List.singleton_append]

/-- Whether a path is passable does not depend on the path so far. -/
theorem reach_eq_ok_iff {walked walked' path : List String} {v w : Value} :
    s.reach walked v path = .ok w ↔ s.reach walked' v path = .ok w := by
  induction path generalizing walked walked' v with
  | nil => exact Iff.rfl
  | cons step rest ih =>
    simp only [reach]
    cases s.attribute? v step with
    | none => simp
    | some u =>
      cases u with
      | null => simp
      | _ => exact ih

/-- A write lands when the path leads to an object that accepts the last name. -/
theorem refusal?_concat_eq_none_iff (s : Store) (v : Value) (path : List String) (name : String) :
    s.refusal? v ⟨path ++ [name]⟩ = none ↔
      ∃ w p, s.reach [] v path = .ok w ∧ s.accept w name = .ok p := by
  rw [refusal?_eq_none_iff, landing]
  simp only [List.getLast?_concat, List.dropLast_concat]
  cases s.reach [] v path with
  | error r => simp
  | ok w => cases haccept : s.accept w name <;> simp [haccept]

/-- Nothing can be written below nothing. -/
theorem accept_ne_ok_of_null {walked path : List String} {w : Value}
    (h : s.reach walked .null path = .ok w) (name : String) (p : Spot) :
    s.accept w name ≠ .ok p := by
  cases path with
  | nil =>
    cases h
    exact nofun
  | cons step rest => cases h

/-- Where a slot can be written, a write further down is refused exactly when it is refused on the
value that is there. -/
theorem refusal?_extend_eq_none_iff {v w : Value} {slot : Slot} (hslot : s.refusal? v slot = none)
    (hw : s.walk v slot.path = some w) {more : List String} (hmore : more ≠ []) :
    s.refusal? v (slot.extend more) = none ↔ s.refusal? w ⟨more⟩ = none := by
  obtain ⟨below, last, rfl⟩ := List.eq_nil_or_concat' more |>.resolve_left hmore
  rw [Slot.extend, ← List.append_assoc, refusal?_concat_eq_none_iff, refusal?_concat_eq_none_iff,
    reach_append]
  obtain ⟨path⟩ := slot
  rcases List.eq_nil_or_concat' path with rfl | ⟨parents, name, rfl⟩
  · cases hw
    simp [reach]
  · obtain ⟨object, p, hobject, _⟩ := (refusal?_concat_eq_none_iff s v parents name).mp hslot
    dsimp only at hw ⊢
    rw [walk_append, walk_of_reach hobject] at hw
    rw [reach_append, hobject]
    simp only [walk, Option.bind_some] at hw
    cases hread : s.attribute? object name with
    | none =>
      rw [hread] at hw
      cases hw
    | some u =>
      rw [hread] at hw
      cases hw
      cases w with
      | null => simpa [reach, hread] using fun x hx ↦ accept_ne_ok_of_null hx last
      | _ =>
        simp only [reach, hread]
        exact exists_congr fun x ↦ exists_congr fun q ↦ and_congr_left' reach_eq_ok_iff

end Extend

end Store

end Recast
