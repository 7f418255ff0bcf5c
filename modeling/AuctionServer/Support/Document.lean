import Mathlib

/-!
# Documents built by a stream

Documents are lists of keyed values.  A builder appends to the innermost open
document, and closing that document files it under its key in the one around
it.  Readers look a key up and insist on the type of its value.
-/

/-- A value of a document; `none` of the reading functions below stands for
the exception of a missing key or another type. -/
inductive DocumentValue where
  | int32 (n : Int32)
  | int64 (n : Int64)
  | utf8 (s : List UInt8)
  | document (fields : List (String × DocumentValue))
  | array (elems : List DocumentValue)

/-- The fields of a document, in order. -/
abbrev DocumentFields := List (String × DocumentValue)

namespace DocumentFields

/-- The element of a key, the first one if there are several. -/
def get (fields : DocumentFields) (key : String) : Option DocumentValue :=
  (fields.find? fun f => f.1 == key).map Prod.snd

theorem get_cons (f : String × DocumentValue) (fields : DocumentFields)
    (key : String) :
    get (f :: fields) key = if f.1 = key then some f.2 else get fields key := by
  by_cases h : f.1 = key
  · simp [get, h]
  · simp [get, h]

@[simp] theorem get_nil (key : String) : get [] key = none := rfl

/-- `get_int32()`. -/
def getInt32 (fields : DocumentFields) (key : String) : Option Int32 :=
  match fields.get key with
  | some (.int32 n) => some n
  | _ => none

/-- `get_int64()`. -/
def getInt64 (fields : DocumentFields) (key : String) : Option Int64 :=
  match fields.get key with
  | some (.int64 n) => some n
  | _ => none

/-- `get_utf8()`. -/
def getUtf8 (fields : DocumentFields) (key : String) : Option (List UInt8) :=
  match fields.get key with
  | some (.utf8 s) => some s
  | _ => none

/-- `get_document()`. -/
def getDocument (fields : DocumentFields) (key : String) :
    Option DocumentFields :=
  match fields.get key with
  | some (.document fields) => some fields
  | _ => none

end DocumentFields

/-- A document under construction: the fields of the innermost open document,
and those of the documents around it, each with the key left open there. -/
structure DocumentBuilder where
  fields : DocumentFields
  enclosing : List (DocumentFields × String)

namespace DocumentBuilder

/-- A builder with nothing written. -/
def empty : DocumentBuilder where
  fields := []
  enclosing := []

/-- `builder << key << value`. -/
def append (builder : DocumentBuilder) (key : String) (value : DocumentValue) :
    DocumentBuilder :=
  { builder with fields := builder.fields ++ [(key, value)] }

/-- `builder << key << open_document`. -/
def openDocument (builder : DocumentBuilder) (key : String) :
    DocumentBuilder where
  fields := []
  enclosing := (builder.fields, key) :: builder.enclosing

/-- `builder << close_document`, an error when no document is open. -/
def closeDocument (builder : DocumentBuilder) : Option DocumentBuilder :=
  match builder.enclosing with
  | [] => none
  | (fields, key) :: enclosing =>
      some
        { fields := fields ++ [(key, .document builder.fields)]
          enclosing := enclosing }

/-- `builder << finalize`, an error while a document is open. -/
def finalize (builder : DocumentBuilder) : Option DocumentFields :=
  if builder.enclosing.isEmpty then some builder.fields else none

@[simp] theorem append_enclosing (builder : DocumentBuilder) (key : String)
    (value : DocumentValue) :
    (builder.append key value).enclosing = builder.enclosing := rfl

@[simp] theorem append_fields (builder : DocumentBuilder) (key : String)
    (value : DocumentValue) :
    (builder.append key value).fields = builder.fields ++ [(key, value)] := rfl

end DocumentBuilder
