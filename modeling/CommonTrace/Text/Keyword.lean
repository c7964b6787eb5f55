/-!
# Keywords

Options are written as words: white space around them and letter case do not
count. A word that names no option is reported as it was written.
-/
namespace CommonTrace.Text

/-- Unicode white space. -/
def isBlank (c : Char) : Bool :=
  let n := c.toNat
  (0x09 ≤ n && n ≤ 0x0D) || n == 0x20 || n == 0x85 || n == 0xA0 || n == 0x1680 ||
  (0x2000 ≤ n && n ≤ 0x200A) || n == 0x2028 || n == 0x2029 || n == 0x202F ||
  n == 0x205F || n == 0x3000

/-- The characters of a text without the white space at either end. -/
def trim (cs : List Char) : List Char :=
  ((cs.dropWhile isBlank).reverse.dropWhile isBlank).reverse

/-- Lower case, for the characters whose lower case is an ASCII letter: the ASCII
capitals and the kelvin sign. Other characters occur in no keyword in either case,
so they are kept. -/
def foldCase (c : Char) : Char :=
  if c = '\u212A' then 'k' else c.toLower

/-- The word a text stands for. -/
def keyword (text : String) : String :=
  String.ofList ((trim text.toList).map foldCase)

/-- The options that are written as words. -/
inductive Vocabulary where
  | byteOrder
  | encoding
  | lostEventsPolicy
  deriving DecidableEq, Repr

/-- A text that names no option of its vocabulary. -/
structure UnknownWord where
  vocabulary : Vocabulary
  text : String
  deriving DecidableEq, Repr

/-- The report of an unknown word. -/
def UnknownWord.message (w : UnknownWord) : String :=
  match w.vocabulary with
  | .byteOrder => s!"'{w.text}' is not a valid byte order"
  | .encoding => s!"'{w.text}' is not a valid encoding"
  | .lostEventsPolicy =>
    s!"'{w.text}' is not a valid lost events policy, expected 'clamp' or 'error'"

end CommonTrace.Text
