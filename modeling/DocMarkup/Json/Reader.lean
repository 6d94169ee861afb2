import DocMarkup.Json.Lexeme

/-!
# Reading JSON

A machine that takes one token at a time and holds the containers that are still open. It ends
with the first complete value; what follows the value is left to the caller. A watcher may look at
each token together with the state it meets and end the reading with a complaint of its own, so
that a complaint about an early part of the text wins over a fault in a later part.

## Main definitions

* `Json.State`, `Json.State.step` : the machine.
* `Json.State.run` : the machine on a lexeme sequence, under a watcher.
* `Json.read` : the value of a text that holds nothing else.
-/

namespace DocMarkup.Json

/-- A container with an item or a member value still to come; what it holds so far stands last
first. -/
inductive Frame where
  | array (items : List Value)
  | object (members : List (String × Value)) (key : String)

/-- What the machine waits for, with the containers around it, innermost first. -/
inductive State where
  /-- A value. -/
  | value (outer : List Frame)
  /-- The first item of an array, or its end. -/
  | arrayStart (outer : List Frame)
  /-- A comma after an item, or the end of the array. -/
  | arrayNext (items : List Value) (outer : List Frame)
  /-- The first name of an object, or its end. -/
  | objectStart (outer : List Frame)
  /-- A name after a comma. -/
  | key (members : List (String × Value)) (outer : List Frame)
  /-- The colon after a name. -/
  | colon (members : List (String × Value)) (key : String) (outer : List Frame)
  /-- A comma after a member, or the end of the object. -/
  | objectNext (members : List (String × Value)) (outer : List Frame)
  /-- Nothing: the value is complete. -/
  | done (v : Value)

namespace State

/-- The state after a complete value. -/
def complete (v : Value) : List Frame → State
  | [] => .done v
  | .array items :: outer => .arrayNext (v :: items) outer
  | .object members k :: outer => .objectNext ((k, v) :: members) outer

/-- The state after the first token of a value. No more than `limit` containers may be open at
once. -/
def enter (limit : Nat) (t : Token) (outer : List Frame) : Except Fault State :=
  match t with
  | .null => .ok (complete .null outer)
  | .bool b => .ok (complete (.bool b) outer)
  | .number n => .ok (complete (.number n) outer)
  | .string s => .ok (complete (.string s) outer)
  | .openArray => if outer.length < limit then .ok (.arrayStart outer) else .error .malformed
  | .openObject => if outer.length < limit then .ok (.objectStart outer) else .error .malformed
  | _ => .error .malformed

/-- The state after one more token. -/
def step (limit : Nat) (st : State) (t : Token) : Except Fault State :=
  match st, t with
  | .value outer, t => enter limit t outer
  | .arrayStart outer, .closeArray => .ok (complete (.array []) outer)
  | .arrayStart outer, t => enter limit t (.array [] :: outer)
  | .arrayNext items outer, .comma => .ok (.value (.array items :: outer))
  | .arrayNext items outer, .closeArray => .ok (complete (.array items.reverse) outer)
  | .objectStart outer, .closeObject => .ok (complete (.object []) outer)
  | .objectStart outer, .string k => .ok (.colon [] k outer)
  | .key members outer, .string k => .ok (.colon members k outer)
  | .colon members k outer, .colon => .ok (.value (.object members k :: outer))
  | .objectNext members outer, .comma => .ok (.key members outer)
  | .objectNext members outer, .closeObject => .ok (complete (.object members.reverse) outer)
  | _, _ => .error .malformed

/-- Whether a token that begins so could come next. -/
def admits (st : State) (o : Opening) : Bool :=
  match st, o with
  | .value _, .quote | .value _, .scalar => true
  | .arrayStart _, .quote | .arrayStart _, .scalar => true
  | .objectStart _, .quote | .key _ _, .quote => true
  | _, _ => false

/-- Takes tokens until a value is complete, and gives it with the lexemes after it. `watch` sees
each token that the machine takes, with the state before it. -/
def run {ε : Type} (limit : Nat) (watch : State → Token → Option ε) :
    State → List Lexeme → Except (Fault ⊕ ε) (Value × List Lexeme)
  | .done v, rest => .ok (v, rest)
  | _, [] => .error (.inl .endOfText)
  | st, .broken o f :: _ => .error (.inl (if st.admits o then f else .malformed))
  | st, .token t :: rest =>
    match st.step limit t with
    | .error f => .error (.inl f)
    | .ok next =>
      match watch st t with
      | some e => .error (.inr e)
      | none => run limit watch next rest

end State

/-- How deep arrays and objects may stand inside each other. -/
def maxDepth : Nat := 127

/-- The value of a text that holds one value and nothing else. -/
def read (limit : Nat) (text : String) : Except Fault Value :=
  match State.run (ε := Empty) limit (fun _ _ => none) (.value []) (lexemes text.toList) with
  | .ok (v, []) => .ok v
  | .ok (_, _ :: _) => .error .malformed
  | .error (.inl f) => .error f

end DocMarkup.Json
