import Recast.Store.Construct
import Recast.Text.Digit
import Recast.Text.Upper

/-!
Operations on values: sums, items, lengths, conversions and equality.
-/

set_option autoImplicit false

namespace Recast

namespace Action

/-- The float of a number. -/
def asFloat? : Value → Option Decimal.Double
  | .bool b => some (if b then ⟨0x3ff0000000000000⟩ else ⟨0⟩)
  | .int n => Decimal.Double.ofInt? n
  | .float x => some x
  | _ => none

/-- The integer of a truth value or integer. -/
def asInt? : Value → Option Int
  | .bool b => some (if b then 1 else 0)
  | .int n => some n
  | _ => none

/-- The sum of two values: of numbers, or two texts, byte strings, lists or tuples joined. -/
def add (x y : Value) : Action Value :=
  match asInt? x, asInt? y with
  | some a, some b => done (.int (a + b))
  | _, _ =>
    match asFloat? x, asFloat? y with
    | some a, some b => done (.float (a.add b))
    | _, _ =>
      match x, y with
      | .int _, .float _ | .float _, .int _ => refuse .wideInteger
      | .text a, .text b => done (.text (a ++ b))
      | .bytes a, .bytes b => done (.bytes (a ++ b))
      | .list _ a, .list _ b => newList (a ++ b)
      | .tuple _ a, .tuple _ b => newTuple (a ++ b)
      | .text _, _ | .list .., _ | .tuple .., _ | .bytes _, _ =>
        refuse (.cannotJoin x.typeName y.typeName)
      | _, _ => refuse (.unsupported "+" x.typeName y.typeName)

/-- The item at a position of a sequence, counted from the end when negative. -/
def pick {α : Type} (items : List α) (n : Int) : Option α :=
  let position := if n < 0 then n + items.length else n
  if position < 0 then none else items[position.toNat]?

/-- The bound on indices. -/
def indexBound : Int := Decimal.twoTo 63

/-- The item of a sequence at an index. -/
def sequenceItem (container : String) (items : List Value) (index : Value) : Action Value :=
  match asInt? index with
  | none => refuse (.badIndex container index.typeName)
  | some n =>
    if n < -indexBound ∨ indexBound ≤ n then refuse .wideIndex
    else match pick items n with
      | some v => done v
      | none => refuse (.outOfRange container)

/-- The item of a container. -/
def item (v index : Value) : Action Value := fun s =>
  match v with
  | .list _ items => sequenceItem "list" items index s
  | .tuple _ items => sequenceItem "tuple" items index s
  | .text t =>
    sequenceItem "str" (t.toList.map fun c => .text (String.singleton c)) index s
  | .bytes bs => sequenceItem "bytes" (bs.map fun b => .int b.toNat) index s
  | .dict _ entries =>
    match s.unhashable? index with
    | some type => refuse (.unhashable type) s
    | none =>
      match Value.lookup entries index with
      | some w => (.ok w, s)
      | none => fail (.general "KeyError" [index]) s
  | v => refuse (.notSubscriptable v.typeName) s

/-- The upper-case form of a text. -/
def upper (v : Value) : Action Value :=
  match v with
  | .text t => done (.text (Text.upper t))
  | .bytes bs => done (.bytes (bs.map fun b => if 97 ≤ b && b ≤ 122 then b - 32 else b))
  | v => refuse (.noAttribute v.typeName "upper")

/-- The calendar notation of a moment. -/
def calendarText (v : Value) : Action Value :=
  match v with
  | .moment m => done (.text m.render)
  | v => refuse (.noAttribute v.typeName "isoformat")

/-- The number of items of a container. -/
def length (v : Value) : Action Value :=
  match v with
  | .text t => done (.int t.length)
  | .bytes bs => done (.int bs.length)
  | .list _ items | .tuple _ items => done (.int items.length)
  | .dict _ entries => done (.int entries.length)
  | v => refuse (.noLength v.typeName)

/-- The plain text of a value. -/
def toText (v : Value) : Action Value := fun s => (.ok (.text (s.plain v)), s)

/-- An integer written in a text with the digits of any script; blanks around it and single
underscores between digits do not count. -/
def integerIn? (t : String) : Option Int :=
  let cs := (Text.trimChars t.toList).map Text.plainDigit
  if cs.contains '.' then none else Schema.integerOfText? (String.ofList cs)

/-- An integer written in bytes, which have to be of ASCII. -/
def integerInBytes? (bs : List UInt8) : Option Int :=
  if bs.all (· < 128) then integerIn? (String.ofList (bs.map fun b => Char.ofNat b.toNat)) else none

/-- The integer of a value. -/
def toInteger (v : Value) : Action Value :=
  match v with
  | .bool b => done (.int (if b then 1 else 0))
  | .int n => done (.int n)
  | .float x => if x.isFinite then done (.int x.truncate) else refuse (.notWhole x.render)
  | .text t =>
    match integerIn? t with
    | some n => done (.int n)
    | none => refuse (.badIntegerText (Text.quoted t))
  | .bytes bs =>
    match integerInBytes? bs with
    | some n => done (.int n)
    | none => refuse (.badIntegerText (Text.quotedBytes bs))
  | v => refuse (.notNumeric v.typeName)

/-- The items of a value as a new list; a model's record gives its fields in pairs. -/
def toList (v : Value) : Action Value := fun s =>
  match v with
  | .record ref type =>
    match s.records[ref]?, Model.find? type with
    | some r, some _ =>
      bind (forEach (fun (n, w) => newTuple [.text n, w]) r.fields) newList s
    | _, _ => refuse (.notIterable v.typeName) s
  | v =>
    match ErrorClass.itemsOf? v with
    | some items => newList items s
    | none => refuse (.notIterable v.typeName) s

/-- Apply a general function by name. -/
def applyBuiltin (name : String) (v : Value) : Action Value :=
  match name with
  | "str" => toText v
  | "int" => toInteger v
  | "len" => length v
  | "bool" => done (.bool v.truth)
  | "list" => toList v
  | "str.upper" =>
    match v with
    | .text t => done (.text (Text.upper t))
    | v => refuse (.wrongReceiver "upper" "str" v.typeName)
  | _ => undefinedVariable name

/-- Add one to a counter that starts at nothing, and give the new count. -/
def count (name : String) : Action Value := fun s =>
  bind (add ((s.binding? name).getD (.int 0)) (.int 1))
    (fun v => bind (setVariable name v) fun _ => done v) s

end Action

namespace Store

/-- Equality of values, with the fields of a model's records compared down to a depth. Other records
are equal only to themselves. -/
def equalAt (s : Store) : Nat → Value → Value → Bool
  | 0, _, _ => false
  | depth + 1, x, y =>
    let all (as bs : List Value) : Bool :=
      as.length == bs.length && (as.zip bs).all fun (a, b) => s.equalAt depth a b
    match x, y with
    | .list _ as, .list _ bs => all as bs
    | .tuple _ as, .tuple _ bs => all as bs
    | .dict _ as, .dict _ bs =>
      as.length == bs.length && as.all fun (k, v) =>
        match Value.lookup bs k with
        | some w => s.equalAt depth v w
        | none => false
    | .record a type, .record b type' =>
      a == b || (type == type' && (s.type? type).isNone && (Model.find? type).isSome &&
        match s.records[a]?, s.records[b]? with
        | some r, some r' =>
          r.fields.length == r'.fields.length && r.fields.all fun (n, v) =>
            match r'.fields.lookup n with
            | some w => s.equalAt depth v w
            | none => false
        | _, _ => false)
    | x, y => Value.sameKey x y

/-- Equality of values. -/
def equal (s : Store) (x y : Value) : Bool := s.equalAt 200 x y

end Store

end Recast
