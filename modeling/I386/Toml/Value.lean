import I386.Toml.Node

/-!
Contract: keys and values in the text of a TOML document.

Owns:
- bare, quoted and dotted keys;
- values, with arrays and tables between braces nested to a limited depth.

Does not own: headers and lines.
-/

namespace I386.Toml

/-- Keys are shorter, and values nested less deep, than this. -/
def nestingLimit : Nat := 80

/-- A character of a bare key. -/
def isBareKeyChar (c : Char) : Bool :=
  c.isAlphanum || c == '_' || c == '-'

/-- Take one key. -/
def simpleKey : Reader String :=
  quotedLine basicStyle <|> quotedLine literalStyle <|>
  (String.ofList <$> Reader.many1 (Reader.charOf isBareKeyChar))

/-- Take a key, of one or more parts with dots between them and blanks around them. -/
def key : Reader (List String) := do
  let parts ← Reader.separated1 (do
    spaces
    let part ← simpleKey
    spaces
    return part) (Reader.char '.')
  if parts.length < nestingLimit then return parts else failure

/-- Take the assignment of a value to a key: the parts of the key before the last, the last, and
the value. -/
def assignment (value : Reader Node) : Reader (List String × String × Node) := do
  let parts ← key
  Reader.char '='
  spaces
  let node ← value
  spaces
  match parts.getLast? with
  | some last => return (parts.dropLast, last, node)
  | none => failure

/-- Take an array. Line ends and comments may stand around its elements, and a comma after the
last. -/
def array (value : Reader Node) : Reader Node := do
  Reader.char '['
  let elements ← Reader.separated (do
    gaps
    let element ← value
    gaps
    return element) (Reader.char ',')
  if !elements.isEmpty then
    let _ ← Reader.optional (Reader.char ',')
  gaps
  Reader.char ']'
  return .array elements

/-- Take a table between braces, on one line. -/
def inlineTable (value : Reader Node) : Reader Node := do
  Reader.char '\x7b'
  let assignments ← Reader.separated (assignment value) (Reader.char ',')
  spaces
  Reader.char '\x7d'
  match assignments.foldlM (fun entries part =>
      Entries.assignInline part.1 part.2.1 part.2.2 entries) [] with
  | some entries => return .inline .explicit entries
  | none => failure

/-- Take a value whose parts are nested at most `depth` deep. -/
def valueUpTo : Nat → Reader Node
  | 0 => Node.scalar <$> scalar
  | depth + 1 =>
      array (valueUpTo depth) <|> inlineTable (valueUpTo depth) <|> Node.scalar <$> scalar

/-- Take a value. -/
def value : Reader Node :=
  valueUpTo (nestingLimit - 1)

end I386.Toml
