import Recast.Store.Display

/-!
The library's own errors: for each class what it is made from, and the message, status, code and
details that follow. Internal causes have their own functions; the classes can also be made from
arguments given by position and by name.
-/

set_option autoImplicit false

namespace Recast

namespace Fault

/-- Details given by name. -/
def details (entries : List (String × Value)) : Value :=
  .dict 0 (entries.map fun (k, v) => (.text k, v))

/-- An error of a class with a message, a status, a code and details. -/
def make (cls : ErrorClass) (message : String) (status : Int) (code : String)
    (entries : List (String × Value)) : Fault :=
  .application cls (.text message) (.int status) (.text code) (details entries)

/-- What a descriptor of a slot should have been. -/
def anySlot : String := "a dotted attribute path or 'target'"

/-- A descriptor of the wrong shape. -/
def slotShape (slot expected hint : String) : Fault :=
  let message := "Expected " ++ expected ++ ", got '" ++ slot ++ "'."
  make .slotShape (if hint.isEmpty then message else message ++ " " ++ hint) 500
    "INVALID_SLOT_SHAPE" [("slot", .text slot), ("expected", .text expected)]

/-- The error for a descriptor that names no slot of the wanted shape. -/
def ofShapeError : Slot.ShapeError → Fault
  | .notText shown => slotShape shown anySlot ""
  | .notPath shown => slotShape shown anySlot "Computed expressions cannot be written to."
  | .notField shown =>
    slotShape shown "a field path such as 'target.contact.first'"
      "To replace the whole target, use for_object() instead."
  | .notWhole shown =>
    slotShape shown "the whole target 'target'" "To write a single field, use for_field() instead."

/-- A slot that another rule has claimed, wholly or in part. -/
def duplicateSlot (slot claimedBy : String) : Fault :=
  let message :=
    if slot == claimedBy then "Multiple mappings given for slot '" ++ slot ++ "'."
    else
      "Mapping for slot '" ++ slot ++ "' overlaps the mapping already given for slot '" ++ claimedBy
        ++ "'."
  make .duplicateSlot message 500 "DUPLICATE_SLOT"
    [("slot", .text slot), ("claimed_by", .text claimedBy)]

/-- The message for a mapper without rules. -/
def nothingToMap : String :=
  "Nothing to map. Call for_field() or for_object() before calling build() or build_sync()."

/-- A mapper without rules. -/
def noRules : Fault := make .noRules nothingToMap 500 "NO_RULES_DEFINED" []

/-- The message for asynchronous rules where none may be. -/
def asynchronousMessage (shownSlots : List String) : String :=
  "Cannot build a synchronous mapper: asynchronous rules are declared for " ++
    Value.commas shownSlots ++ ". Use build() instead."

/-- Asynchronous rules where none may be. -/
def asynchronousRule (slots : List String) : Fault :=
  make .asynchronousRule (asynchronousMessage (slots.map Text.quoted)) 500
    "ASYNCHRONOUS_RULE_DECLARED" [("slots", .list 0 (slots.map .text))]

/-- A field that cannot be mapped. -/
def mappingField (field reason : String) (entries : List (String × Value)) : Fault :=
  make .mappingField ("Failed to map field '" ++ field ++ "': " ++ reason) 422
    "MAPPING_FIELD_ERROR" (entries ++ [("field", .text field)])

/-- The message for a path that meets nothing where an object should be. -/
def slotPathMessage (slot missing : String) : String :=
  "Cannot write slot '" ++ slot ++ "': '" ++ missing ++
    "' is None on the target. Initialise it in the target's defaults."

/-- A path that meets nothing where an object should be. -/
def slotPath (slot missing : String) : Fault :=
  make .slotPath (slotPathMessage slot missing) 500 "SLOT_PATH_ERROR"
    [("slot", .text slot), ("missing", .text missing)]

/-- Something asked for by key that is not there. -/
def notFound (message : String) (entries : List (String × Value)) : Fault :=
  make .notFound message 404 "NOT_FOUND" entries

/-- A remote source that gave no usable answer. -/
def source (message : String) (entries : List (String × Value)) : Fault :=
  make .source message 502 "SOURCE_API_ERROR" entries

/-- A remote source that did not answer in time. -/
def sourceTimeout (message : String) (entries : List (String × Value)) : Fault :=
  make .sourceTimeout message 504 "SOURCE_API_TIMEOUT" entries

/-- A remote source that could not be reached. -/
def sourceConnection (entries : List (String × Value)) : Fault :=
  make .sourceConnection "Unable to connect to the country API." 502 "SOURCE_API_CONNECTION_ERROR"
    entries

end Fault

/-- The parameters of a constructor: those without a default come first. -/
structure Parameters where
  required : List String
  optional : List String

namespace Parameters

/-- All parameter names in order. -/
def names (p : Parameters) : List String := p.required ++ p.optional

/-- Names in quotes, the last joined by "and". -/
def listed : List String → String
  | [] => ""
  | [a] => "'" ++ a ++ "'"
  | [a, b] => "'" ++ a ++ "' and '" ++ b ++ "'"
  | names => ", ".intercalate ((names.dropLast).map fun n => "'" ++ n ++ "'") ++
      ", and '" ++ names.getLast?.getD "" ++ "'"

/-- The parameter that is always bound: the error that is being made. -/
def receiver : String := "self"

/-- The arguments of a call by parameter name, or what is wrong with them. Arguments given by name
are checked first, then the number of those given by position, then whether any is missing. -/
def bind (p : Parameters) (owner : String) (args : List Value) (named : List (String × Value)) :
    Except String (List (String × Value)) :=
  let call := owner ++ ".__init__()"
  let taken := p.names.take args.length
  match named.find? fun (n, _) => !p.names.contains n || taken.contains n with
  | some (n, _) =>
    if n = receiver ∨ p.names.contains n then
      .error (call ++ " got multiple values for argument '" ++ n ++ "'")
    else .error (call ++ " got an unexpected keyword argument '" ++ n ++ "'")
  | none =>
    let most := p.names.length + 1
    let least := p.required.length + 1
    if p.names.length < args.length then
      let range :=
        if least = most then toString most else "from " ++ toString least ++ " to " ++ toString most
      .error (call ++ " takes " ++ range ++ " positional arguments but " ++
        toString (args.length + 1) ++ " were given")
    else
      let bound := taken.zip args ++ named
      match p.required.filter fun n => (bound.lookup n).isNone with
      | [] => .ok bound
      | missing =>
        let plural := if missing.length = 1 then "" else "s"
        .error (call ++ " missing " ++ toString missing.length ++ " required positional argument" ++
          plural ++ ": " ++ listed missing)

end Parameters

namespace ErrorClass

/-- The parameters that an error class is made from. -/
def parameters : ErrorClass → Parameters
  | .slotShape => ⟨["slot", "expected"], ["hint", "details"]⟩
  | .duplicateSlot => ⟨["slot", "claimed_by"], ["details"]⟩
  | .asynchronousRule => ⟨["slots"], ["details"]⟩
  | .mappingField => ⟨["field_name"], ["reason", "details"]⟩
  | .slotPath => ⟨["slot", "missing"], ["details"]⟩
  | .noRules | .sourceTimeout | .sourceConnection => ⟨[], ["message", "details"]⟩
  | .application | .configuration | .transformation | .source | .notFound =>
    ⟨[], ["message", "status_code", "error_code", "details"]⟩

/-- The message of an error made without one. -/
def defaultMessage : ErrorClass → String
  | .application => "An unexpected error occurred."
  | .configuration => "Invalid mapping configuration."
  | .noRules => Fault.nothingToMap
  | .transformation => "Data transformation failed."
  | .source => "Failed to fetch data from the country API."
  | .sourceTimeout => "Country API request timed out."
  | .sourceConnection => "Unable to connect to the country API."
  | .notFound => "Resource not found."
  | _ => ""

/-- The status of an error made without one. -/
def defaultStatus : ErrorClass → Int
  | .transformation | .mappingField => 422
  | .source | .sourceConnection => 502
  | .sourceTimeout => 504
  | .notFound => 404
  | _ => 500

/-- The code of an error made without one. -/
def defaultCode : ErrorClass → String
  | .application => "INTERNAL_ERROR"
  | .configuration => "MAPPING_CONFIGURATION_ERROR"
  | .slotShape => "INVALID_SLOT_SHAPE"
  | .duplicateSlot => "DUPLICATE_SLOT"
  | .noRules => "NO_RULES_DEFINED"
  | .asynchronousRule => "ASYNCHRONOUS_RULE_DECLARED"
  | .transformation => "TRANSFORMATION_ERROR"
  | .mappingField => "MAPPING_FIELD_ERROR"
  | .slotPath => "SLOT_PATH_ERROR"
  | .source => "SOURCE_API_ERROR"
  | .sourceTimeout => "SOURCE_API_TIMEOUT"
  | .sourceConnection => "SOURCE_API_CONNECTION_ERROR"
  | .notFound => "NOT_FOUND"

/-- Details with the class's own entries written over them. -/
def mergedDetails (given : Value) (own : List (String × Value)) : Except Fault Value :=
  let base := if given.truth then given else .dict 0 []
  match base with
  | .dict id entries =>
    .ok (.dict id (own.foldl (fun es (k, v) => Value.insert es (.text k) v) entries))
  | v => .error (Fault.typeError ("'" ++ v.typeName ++ "' object is not a mapping"))

/-- The items of a value that can be gone through. -/
def itemsOf? : Value → Option (List Value)
  | .list _ items => some items
  | .tuple _ items => some items
  | .dict _ entries => some (entries.map Prod.fst)
  | .text s => some (s.toList.map fun c => .text (String.singleton c))
  | .bytes bs => some (bs.map fun b => .int b.toNat)
  | _ => none

/-- The error of a class from its arguments by parameter name. -/
def build (cls : ErrorClass) (s : Store) (args : List (String × Value)) : Except Fault Fault :=
  let arg (name : String) : Value := (args.lookup name).getD .null
  let text (name : String) : String := s.plain (arg name)
  let status : Value := .int cls.defaultStatus
  let code : Value := .text cls.defaultCode
  let withOwn (message : String) (own : List (String × Value)) : Except Fault Fault :=
    (mergedDetails (arg "details") own).map fun d => .application cls (.text message) status code d
  match cls with
  | .slotShape =>
    let base := "Expected " ++ text "expected" ++ ", got '" ++ text "slot" ++ "'."
    withOwn (if (arg "hint").truth then base ++ " " ++ text "hint" else base)
      [("slot", arg "slot"), ("expected", arg "expected")]
  | .duplicateSlot =>
    let message :=
      if Value.sameKey (arg "slot") (arg "claimed_by") then
        "Multiple mappings given for slot '" ++ text "slot" ++ "'."
      else
        "Mapping for slot '" ++ text "slot" ++ "' overlaps the mapping already given for slot '" ++
          text "claimed_by" ++ "'."
    withOwn message [("slot", arg "slot"), ("claimed_by", arg "claimed_by")]
  | .asynchronousRule =>
    match itemsOf? (arg "slots") with
    | some items =>
      withOwn (Fault.asynchronousMessage (items.map s.shown)) [("slots", arg "slots")]
    | none => .error (.operand (.notIterable (arg "slots").typeName))
  | .mappingField =>
    let reason := if (args.lookup "reason").isSome then text "reason" else "Field mapping failed."
    withOwn ("Failed to map field '" ++ text "field_name" ++ "': " ++ reason)
      [("field", arg "field_name")]
  | .slotPath =>
    withOwn (Fault.slotPathMessage (text "slot") (text "missing"))
      [("slot", arg "slot"), ("missing", arg "missing")]
  | _ =>
    let details := if (arg "details").truth then arg "details" else .dict 0 []
    .ok (.application cls ((args.lookup "message").getD (.text cls.defaultMessage))
      ((args.lookup "status_code").getD status) ((args.lookup "error_code").getD code) details)

/-- The error of a class from arguments by position and by name. -/
def ofArguments (cls : ErrorClass) (s : Store) (args : List Value) (named : List (String × Value)) :
    Except Fault Fault :=
  match cls.parameters.bind cls.name args named with
  | .error text => .error (Fault.typeError text)
  | .ok bound => cls.build s bound

end ErrorClass

namespace Fault

/-- The classes above all errors of the library. -/
def generalLineage : List String := ["Exception", "BaseException", "object"]

/-- An error as it is shown to clients: details only when there are some. -/
def envelope : Fault → Value
  | .application _ message _ code details =>
    let entries : List (Value × Value) :=
      [(.text "error", .bool true), (.text "error_code", code), (.text "message", message)]
    .dict 0 (if details.truth then entries ++ [(.text "details", details)] else entries)
  | _ => .null

/-- The fault of a named kind: one of the library's own classes, cancellation, or a general kind. -/
def ofKind (s : Store) (kind : String) (args : List Value) : Except Fault Fault :=
  match ErrorClass.ofName? kind with
  | some cls => cls.ofArguments s args []
  | none =>
    .ok (if kind == "CancelledError" && args.isEmpty then .cancelled else .general kind args)

end Fault

end Recast
