import Timelock.Json.Printer

/-!
# JSON texts as trees

The tree of a text, faults included: where the text fails, the tree has a node or an ending
that says how, and all containers around it are left open.  A reader walks the tree in the
order of the text, so the first problem it meets is the first problem of the text, whether of
form or of type.
-/

namespace Timelock.Json

inductive Key where
  | name (text : String)
  | unpaired
  /-- The text fails inside the name. -/
  | broken (reading skipping : Fault)
  deriving DecidableEq

mutual

inductive Node where
  | null
  | bool (value : Bool)
  /-- `none` when the number is too large. -/
  | number (value : Option Number)
  /-- `none` when a surrogate escape is unpaired. -/
  | string (value : Option String)
  | array (items : List Node) (ending : Ending)
  | object (members : List (Key × Node)) (ending : Ending)
  | absent (fault : Fault)
  /-- The text fails inside a string (`quoted`), or inside a number or a name. -/
  | broken (quoted : Bool) (reading skipping : Fault)

inductive Ending where
  | closed
  | cut (fault : Fault)
  | cutAfterComma (fault : Fault)
  /-- In place of the first member name, the start of something else. -/
  | misnamed (start : Node)

end

instance : Inhabited Node := ⟨.null⟩

structure Document where
  root : Node
  followed : Bool

namespace Node

inductive Frame where
  | items (before : List Node)
  | members (before : List (Key × Node)) (pending : Option Key)

namespace Frame

def add (n : Node) : Frame → Frame
  | .items before => .items (n :: before)
  | .members before (some k) => .members ((k, n) :: before) none
  | .members before none => .members before none

def close (e : Ending) : Frame → Node
  | .items before => .array before.reverse e
  | .members before _ => .object before.reverse e

def isArray : Frame → Bool
  | .items _ => true
  | .members _ _ => false

end Frame

inductive Expectation where
  | value
  | firstItem
  | firstName
  | nextName
  | colon
  | separator
  deriving DecidableEq

/-- Leave all containers open around a node in which the text fails. -/
def leaveOpen (f : Fault) (n : Node) : List Frame → Node
  | [] => n
  | top :: rest => leaveOpen f ((top.add n).close (.cut f)) rest

/-- The tree of a text that fails at a point where something is expected. -/
def failAt (f : Fault) (x : Expectation) (stack : List Frame) : Node :=
  let shut (e : Ending) := match stack with
    | [] => .absent f
    | top :: rest => leaveOpen f (top.close e) rest
  match x with
  | .value | .colon => leaveOpen f (.absent f) stack
  | .firstItem | .firstName | .separator => shut (.cut f)
  | .nextName => shut (.cutAfterComma f)

def start : Token → Node
  | .null => .null
  | .bool b => .bool b
  | .number n => .number n
  | .string s => .string s
  | .openArray => .array [] (.cut .malformed)
  | .openObject => .object [] (.cut .malformed)
  | .brokenString r s => .broken true r s
  | .brokenScalar r s => .broken false r s
  | .closeArray | .closeObject | .comma | .colon => .absent .malformed

def nameOf? : Token → Option Key
  | .string (some s) => some (.name s)
  | .string none => some .unpaired
  | .brokenString r s => some (.broken r s)
  | _ => none

inductive Move where
  | go (x : Expectation) (stack : List Frame)
  | complete (n : Node) (stack : List Frame)
  | fail (root : Node)

def valueMove (t : Token) (stack : List Frame) : Move :=
  match t with
  | .null | .bool _ | .number _ | .string _ => .complete (start t) stack
  | .openArray => .go .firstItem (.items [] :: stack)
  | .openObject => .go .firstName (.members [] none :: stack)
  | .brokenString r _ | .brokenScalar r _ => .fail (leaveOpen r (start t) stack)
  | .closeArray | .closeObject | .comma | .colon =>
      .fail (leaveOpen .malformed (.absent .malformed) stack)

def move (t : Token) : Expectation → List Frame → Move
  | .value, stack => valueMove t stack
  | .firstItem, .items before :: rest =>
      if t = .closeArray then .complete (.array before.reverse .closed) rest
      else valueMove t (.items before :: rest)
  | .firstName, .members before _ :: rest =>
      if t = .closeObject then .complete (.object before.reverse .closed) rest
      else match nameOf? t with
        | some k => .go .colon (.members before (some k) :: rest)
        | none =>
            .fail (leaveOpen .malformed (.object before.reverse (.misnamed (start t))) rest)
  | .nextName, .members before p :: rest =>
      match nameOf? t with
      | some k => .go .colon (.members before (some k) :: rest)
      | none => .fail (failAt .malformed .nextName (.members before p :: rest))
  | .colon, stack =>
      if t = .colon then .go .value stack else .fail (failAt .malformed .colon stack)
  | .separator, .items before :: rest =>
      if t = .comma then .go .value (.items before :: rest)
      else if t = .closeArray then .complete (.array before.reverse .closed) rest
      else .fail (failAt .malformed .separator (.items before :: rest))
  | .separator, .members before p :: rest =>
      if t = .comma then .go .nextName (.members before p :: rest)
      else if t = .closeObject then .complete (.object before.reverse .closed) rest
      else .fail (failAt .malformed .separator (.members before p :: rest))
  | x, stack => .fail (failAt .malformed x stack)

def run : Expectation → List Frame → List Token → Document
  | x, stack, [] => ⟨failAt .unfinished x stack, false⟩
  | x, stack, t :: ts =>
      match move t x stack with
      | .go x stack => run x stack ts
      | .complete n [] => ⟨n, !ts.isEmpty⟩
      | .complete n (top :: rest) => run .separator (top.add n :: rest) ts
      | .fail root => ⟨root, false⟩

end Node

namespace Document

def ofTokens (ts : List Token) : Document := Node.run .value [] ts

def ofText (s : String) : Document := ofTokens (Token.scan s.toList)

end Document

mutual

def Value.node : Value → Node
  | .null => .null
  | .bool b => .bool b
  | .number n => .number (some n)
  | .string s => .string (some s)
  | .array vs => .array (Value.itemNodes vs) .closed
  | .object ms => .object (Value.memberNodes ms) .closed

def Value.itemNodes : List Value → List Node
  | [] => []
  | v :: vs => v.node :: Value.itemNodes vs

def Value.memberNodes : List (String × Value) → List (Key × Node)
  | [] => []
  | (k, v) :: ms => (.name k, v.node) :: Value.memberNodes ms

end

end Timelock.Json
