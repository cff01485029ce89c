/-
Malm.Authoring.TypeExpression — the recursive-descent parser of type expressions
(`lang/parse.rs`), its grammar, and the text that `Display` gives a type.

The parser walks the UTF-8 bytes of a text, and the grammar is one of characters, with
blanks between any two tokens. `BlanksPlaced` says where the parser lets a blank stand.
-/
import Malm.Authoring.Templates

namespace Malm.Authoring

open Bytes Checks List

def maxTypeDepth : Nat := 32

/-! ## 1. The parser -/

/-- A failed parse: a diagnostic, or the panic of a slice that is not whole characters. -/
inductive TypeFailure where
  | diagnostic (reason : Diagnostic)
  | boundary

/-- `u8::is_ascii_whitespace`, on the code of a byte or character. -/
def isBlank (code : Nat) : Bool := [32, 9, 10, 12, 13].contains code

def isOperator (code : Nat) : Bool := [60, 62, 63, 44].contains code

def isNameCode (code : Nat) : Bool := !isOperator code && !isBlank code

/-- The parser without its offset, which is passed as the rest of the bytes. The last two
fields are the answers of `parse_enum_values` and `parse_record_schema` for the node. -/
structure TypeExpressionParser where
  file : FileId
  node : KdlNode
  raw : String
  enumValues : ParseResult (List String)
  recordSchema : ParseResult (List FieldSchema)

abbrev TypeReader (α : Type) := List UInt8 → Except TypeFailure (α × List UInt8)

def skipWhitespace (rest : List UInt8) : List UInt8 := rest.dropWhile (isBlank ·.toNat)

def sliceText (bytes : List UInt8) : Except TypeFailure Text :=
  require (fromUtf8 bytes) .boundary

/-- The constructors of `list`, `collection`, `map` and `set`. -/
def unaryGeneric : String → Option (Ty → Ty)
  | "list" => some .list
  | "collection" => some .collection
  | "map" => some .map
  | "set" => some .set
  | _ => none

/-- The loop over the elements of a tuple after the first. Each round takes a comma, so as many
rounds as bytes are enough. -/
def furtherItems (item : TypeReader Ty) : Nat → TypeReader (List Ty)
  | 0, rest => .ok ([], skipWhitespace rest)
  | fuel + 1, rest =>
    let rest := skipWhitespace rest
    if rest.head? = some 44 then do
      let (ty, rest) ← item rest.tail
      let (types, rest) ← furtherItems item fuel rest
      .ok (ty :: types, rest)
    else .ok ([], rest)

namespace TypeExpressionParser

variable (self : TypeExpressionParser)

def error (message : String) : TypeFailure :=
  .diagnostic (nodeError self.file self.node Codes.nodeShape message)

def depthError : TypeFailure :=
  .diagnostic (nodeError self.file self.node "MALM2009"
    s!"type expression exceeds the maximum depth of {maxTypeDepth}")

def expectByte (byte : UInt8) (rest : List UInt8) : Except TypeFailure (List UInt8) :=
  let (raw, expected) := (self.raw, Char.ofNat byte.toNat)
  if rest.head? = some byte then .ok rest.tail else
    .error (self.error s!"type expression `{raw}` is missing `{expected}`")

/-- The type of a name that no `<` follows. -/
def nameType (name : String) : Except TypeFailure Ty :=
  match name with
  | "bool" => .ok .bool
  | "int" => .ok .int
  | "float" => .ok .float
  | "string" => .ok .string
  | "path" => .ok .path
  | "kdl-document" => .ok .kdlDocument
  | "enum" => (self.enumValues.map Ty.enum).mapError .diagnostic
  | "record" => (self.recordSchema.map Ty.record).mapError .diagnostic
  | "list" | "collection" | "map" | "set" => .error <| self.error
      s!"nested `{name}` requires an item type, for example `{name}<string>`"
  | "tuple" => .error <| self.error
      "nested `tuple` requires at least one element, for example `tuple<int, string>`"
  | _ => .ok (.named name)

/-- What follows `name<`. -/
def genericType (item : TypeReader Ty) (name : String) : TypeReader Ty := fun rest =>
  match unaryGeneric name with
  | some wrap => do
    let (inner, rest) ← item rest
    let rest ← self.expectByte 62 (skipWhitespace rest)
    .ok (wrap inner, rest)
  | none =>
    if name = "tuple" then do
      let (first, rest) ← item rest
      let (others, rest) ← furtherItems item rest.length rest
      let rest ← self.expectByte 62 (skipWhitespace rest)
      reject (maxTypeDepth < others.length + 1) <| self.error
        s!"tuple declares more than the maximum of {maxTypeDepth} elements"
      .ok (.tuple (first :: others), rest)
    else .error (self.error s!"type `{name}` does not accept a generic item type")

/-- What follows a name, up to the optional `?`. -/
def unmarkedType (item : TypeReader Ty) (name : String) : TypeReader Ty := fun rest =>
  if rest.head? = some 60 then self.genericType item name rest.tail
  else (self.nameType name).map (·, rest)

/-- The optional `?` after a type. -/
def optionalMark (ty : Ty) : TypeReader Ty := fun rest =>
  if rest.head? = some 63 then do
    reject (ty.isOptional = true ∨ rest.tail.head? = some 63) <| self.error
      "optional type is declared more than once"
    .ok (.optional ty, rest.tail)
  else .ok (ty, rest)

/-- The body of `parse`, over the reader of nested types. -/
def parseWith (item : TypeReader Ty) : TypeReader Ty := fun rest => do
  let rest := skipWhitespace rest
  let name := rest.takeWhile (isNameCode ·.toNat)
  let rest := rest.dropWhile (isNameCode ·.toNat)
  reject (rest.head?.any (isBlank ·.toNat) = true)
    (self.error "type expressions must not contain whitespace")
  let raw := self.raw
  reject (name = []) (self.error s!"invalid type expression `{raw}`")
  let name ← sliceText name
  let (ty, rest) ← self.unmarkedType item (String.ofList name) rest
  self.optionalMark ty (skipWhitespace rest)

/-- `parse`, by the levels of nesting that are left, `MAX_TYPE_DEPTH + 1 - depth`. -/
def parse : Nat → TypeReader Ty
  | 0 => fun _ => .error self.depthError
  | levels + 1 => self.parseWith (parse levels)

def parseTypeExpression : Except TypeFailure Ty := do
  let (ty, rest) ← self.parse (maxTypeDepth + 1) (utf8 self.raw.toList)
  if rest = [] then .ok ty else do
    let near ← sliceText rest
    let (raw, near) := (self.raw, String.ofList near)
    .error (self.error s!"invalid type expression `{raw}` near `{near}`")

/-! ## 2. The grammar -/

abbrev Grammar := Text → Ty → Prop

def Blanks (gap : Text) : Prop := ∀ c ∈ gap, isBlank c.toNat = true

def IsName (word : Text) : Prop := word ≠ [] ∧ ∀ c ∈ word, isNameCode c.toNat = true

/-- The elements of a tuple after the first, each behind its comma. -/
inductive Further (Item : Grammar) : Text → List Ty → Prop
  | none : Further Item [] []
  | item {text more : Text} {ty : Ty} {types : List Ty} (hitem : Item text ty)
      (hmore : Further Item more types) : Further Item (',' :: (text ++ more)) (ty :: types)

/-- A type up to its `?`, over what is derived for the types in it. -/
inductive Unmarked (Item : Grammar) : Grammar
  | name {word : Text} {ty : Ty} (hword : IsName word)
      (hty : self.nameType (String.ofList word) = .ok ty) : Unmarked Item word ty
  | unary {word gap inner : Text} {wrap : Ty → Ty} {ty : Ty} (hword : IsName word)
      (hwrap : unaryGeneric (String.ofList word) = some wrap) (hgap : Blanks gap)
      (hitem : Item inner ty) :
      Unmarked Item (word ++ (gap ++ '<' :: (inner ++ ['>']))) (wrap ty)
  | tuple {gap inner more : Text} {ty : Ty} {types : List Ty} (hgap : Blanks gap)
      (hitem : Item inner ty) (hmore : Further Item more types)
      (hlen : types.length + 1 ≤ maxTypeDepth) :
      Unmarked Item ("tuple".toList ++ (gap ++ '<' :: (inner ++ (more ++ ['>']))))
        (.tuple (ty :: types))

/-- A type between blanks, with at most one `?`. -/
inductive Nested (Item : Grammar) : Grammar
  | plain {left core right : Text} {ty : Ty} (hleft : Blanks left)
      (hcore : Unmarked self Item core ty) (hright : Blanks right) :
      Nested Item (left ++ (core ++ right)) ty
  | optional {left core gap right : Text} {ty : Ty} (hleft : Blanks left)
      (hcore : Unmarked self Item core ty) (hgap : Blanks gap) (hright : Blanks right) :
      Nested Item (left ++ (core ++ (gap ++ '?' :: right))) (.optional ty)

/-- The texts that denote a type of at most `levels` levels. -/
def Derives : Nat → Grammar
  | 0 => fun _ _ => False
  | levels + 1 => Nested self (Derives levels)

/-- In `body`, which `tail` follows, no blank directly follows a character of a name. -/
def Tight : Text → Text → Prop
  | [], _ => True
  | c :: body, tail =>
    (isNameCode c.toNat = true → (body ++ tail).head?.any (isBlank ·.toNat) = false) ∧
      Tight body tail

/-- No blank follows a final `?`. -/
def MarkLast (text : Text) : Prop :=
  (text.reverse.dropWhile (isBlank ·.toNat)).head? = some '?' → text.getLast? = some '?'

/-- The blanks of a text stand where the parser lets them. -/
def BlanksPlaced (text : Text) : Prop := Tight text [] ∧ MarkLast text

/-! ## 3. The text of a type -/

mutual

/-- `Display` for `Type`. -/
def display : Ty → String
  | .bool => "bool"
  | .int => "int"
  | .float => "float"
  | .string => "string"
  | .path => "path"
  | .enum values => "enum\x7b" ++ ", ".intercalate values ++ "\x7d"
  | .list item => "list<" ++ display item ++ ">"
  | .record _ => "record"
  | .collection item => "collection<" ++ display item ++ ">"
  | .kdlDocument => "kdl-document"
  | .optional inner => "optional<" ++ display inner ++ ">"
  | .named name => name
  | .variant _ _ => "variant"
  | .refine name _ _ _ _ _ _ => name
  | .map item => "map<" ++ display item ++ ">"
  | .tuple types => "tuple<" ++ ", ".intercalate (displayAll types) ++ ">"
  | .set item => "set<" ++ display item ++ ">"

def displayAll : List Ty → List String
  | [] => []
  | ty :: types => display ty :: displayAll types

end

/-- The types of at most `levels` levels built from scalars, names and generics. -/
def Printable : Nat → Ty → Prop
  | 0, _ => False
  | _ + 1, .bool | _ + 1, .int | _ + 1, .float | _ + 1, .string | _ + 1, .path
  | _ + 1, .kdlDocument => True
  | _ + 1, .named name => IsName name.toList ∧ self.nameType name = .ok (.named name)
  | levels + 1, .list item | levels + 1, .collection item | levels + 1, .map item
  | levels + 1, .set item => Printable levels item
  | levels + 1, .tuple items => items ≠ [] ∧ items.length ≤ maxTypeDepth ∧
    ∀ item ∈ items, Printable levels item
  | _ + 1, _ => False

end TypeExpressionParser

end Malm.Authoring
