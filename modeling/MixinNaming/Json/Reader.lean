import MixinNaming.Json.Token
/-! Reading a JSON document from its tokens. Containers that are still open wait on a stack, so a
document may be nested as deeply as it likes. -/
namespace MixinNaming.Json

/-- A container that is still open, with what it holds so far in reverse. -/
inductive Frame where
  | array (done : List Json)
  | object (done : List (Option String × Json)) (key : Option String)

/-- What may come next. -/
inductive Expectation where
  | value
  | firstItem
  | firstKey
  | key
  | colon
  | more
  deriving DecidableEq, Repr

structure ReaderState where
  stack : List Frame
  expected : Expectation
  result : Option Json

/-- An object whose keys are all texts. -/
def ofFields (fields : List (Option String × Json)) : Json :=
  match fields.mapM fun field => field.1.map fun key => (key, field.2) with
  | some fields => .object fields
  | none => .void

/-- Hands a finished value to the container that waits for it. -/
def deliver (value : Json) : List Frame → ReaderState
  | [] => ⟨[], .more, some value⟩
  | .array done :: rest => ⟨.array (value :: done) :: rest, .more, none⟩
  | .object done key :: rest => ⟨.object ((key, value) :: done) none :: rest, .more, none⟩

def closeArray : List Frame → Option ReaderState
  | .array done :: rest => some (deliver (.array done.reverse) rest)
  | _ => none

def closeObject : List Frame → Option ReaderState
  | .object done _ :: rest => some (deliver (ofFields done.reverse) rest)
  | _ => none

def openValue (stack : List Frame) : Token → Option ReaderState
  | .literal value => some (deliver value stack)
  | .text (some s) => some (deliver (.string s) stack)
  | .text none => some (deliver .void stack)
  | .openBracket => some ⟨.array [] :: stack, .firstItem, none⟩
  | .openBrace => some ⟨.object [] none :: stack, .firstKey, none⟩
  | _ => none

def readKey (stack : List Frame) (key : Option String) : Option ReaderState :=
  match stack with
  | .object done _ :: rest => some ⟨.object done key :: rest, .colon, none⟩
  | _ => none

/-- A comma asks for another key in an object and for another value in an array. -/
def readComma : List Frame → Option ReaderState
  | .array done :: rest => some ⟨.array done :: rest, .value, none⟩
  | .object done key :: rest => some ⟨.object done key :: rest, .key, none⟩
  | [] => none

def readNext (state : ReaderState) (token : Token) : Option ReaderState :=
  match state.expected, token with
  | .value, token => openValue state.stack token
  | .firstItem, .closeBracket => closeArray state.stack
  | .firstItem, token => openValue state.stack token
  | .firstKey, .closeBrace => closeObject state.stack
  | .firstKey, .text key => readKey state.stack key
  | .key, .text key => readKey state.stack key
  | .colon, .colon => some { state with expected := .value }
  | .more, .comma => readComma state.stack
  | .more, .closeBracket => closeArray state.stack
  | .more, .closeBrace => closeObject state.stack
  | _, _ => none

/-- One value with nothing but blanks around it. -/
def read (text : String) : Option Json := do
  let state ← (← tokens text).foldlM readNext ⟨[], .value, none⟩
  state.result

end MixinNaming.Json
