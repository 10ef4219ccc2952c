import Mathlib.Algebra.Group.Int.Defs
import Mathlib.Data.List.AList
import AutopinPlus.Error

/-!
# Configuration texts

`StandardConfiguration` reads a text line by line into lists of values, and the accessors
of `Configuration` turn the first value of an option into a number or a truth value. The
functions of `QString` that the source uses are given first, on lists of characters.
-/
namespace AutopinPlus

namespace QString

/-- A property of the characters of a text is decided along the text. -/
instance decidableForallMem (p : Char → Prop) [DecidablePred p] (l : List Char) : Decidable (∀ c ∈ l, p c) :=
  List.decidableBAll p l

/-- `QChar::isSpace`. -/
def isSpace (c : Char) : Bool :=
  let n := c.toNat
  n == 32 || (9 ≤ n && n ≤ 13) || n == 0x85 || n == 0xa0 || n == 0x1680 || (0x2000 ≤ n && n ≤ 0x200a) ||
    n == 0x2028 || n == 0x2029 || n == 0x202f || n == 0x205f || n == 0x3000

def trimmed (l : List Char) : List Char := ((l.dropWhile isSpace).reverse.dropWhile isSpace).reverse

/-- `split` with `QString::SkipEmptyParts`. -/
def split (sep : Char) (l : List Char) : List (List Char) := (l.splitOn sep).filter (fun part => !part.isEmpty)

/-- What stands before and after the first occurrence of `sep`, which `indexOf` finds. -/
def cut (sep : List Char) : List Char → Option (List Char × List Char)
  | [] => none
  | c :: cs =>
    if sep.isPrefixOf (c :: cs) then some ([], (c :: cs).drop sep.length)
    else (cut sep cs).map fun p => (c :: p.1, p.2)

/-- Lower case, as far as a result is compared with a text of ASCII letters: the Kelvin sign is
the only other character whose lower case is one. -/
def toLower (s : String) : String :=
  String.ofList (s.toList.map fun c => if c.toNat = 0x212a then 'k' else c.toLower)

def digit (base : Nat) (c : Char) : Option Nat :=
  let value :=
    if '0' ≤ c ∧ c ≤ '9' then some (c.toNat - 48)
    else if 'a' ≤ c ∧ c ≤ 'z' then some (c.toNat - 87)
    else if 'A' ≤ c ∧ c ≤ 'Z' then some (c.toNat - 55)
    else none
  value.filter (fun v => v < base)

/-- A number without sign, of at least one digit. -/
def digits (base : Nat) (l : List Char) : Option Nat :=
  if l.isEmpty then none
  else l.foldlM (fun n c => (digit base c).map fun d => base * n + d) 0

/-- The sign, and what follows it. -/
def sign : List Char → Int × List Char
  | '-' :: l => (-1, l)
  | '+' :: l => (1, l)
  | l => (1, l)

/-- The values of an `int`. -/
def inRange (v : Int) : Bool := -2 ^ 31 ≤ v && v < 2 ^ 31

/-- `toInt` with base 10; `none` where `ok` is false and the result 0. -/
def toInt (s : String) : Option Int :=
  let (sgn, l) := sign (trimmed s.toList)
  ((digits 10 l).map fun n => sgn * n).filter inRange

/-- `toInt` with base 0: the base is told by the first digits, as in C. -/
def toIntAnyBase (s : String) : Option Int :=
  let (sgn, l) := sign (trimmed s.toList)
  let n := match l with
    | '0' :: 'x' :: l => digits 16 l
    | '0' :: 'X' :: l => digits 16 l
    | '0' :: l => digits 8 ('0' :: l)
    | l => digits 10 l
  (n.map fun n => sgn * n).filter inRange

/-- The `\d+` of the source, matched exactly, for texts whose digits are ASCII: `QRegExp` takes those of other scripts
for digits too. -/
def isInteger (s : String) : Bool := !s.toList.isEmpty && s.toList.all Char.isDigit

end QString

namespace Tools

/-- An exception carries its text. -/
def readInt (s : String) : Except String Int :=
  match QString.toIntAnyBase s with
  | some v => .ok v
  | none => .error ("Tools::readInt(" ++ s ++ ") failed: Invalid.")

def readInts (list : List String) : Except String (List Int) := list.mapM readInt

end Tools

/-! ## `StandardConfiguration` -/

/-- The options, and the context that the format errors are reported to, which is not that of
the watchdog. -/
structure StandardConfiguration where
  options : AList (fun _ : String => List String) := ∅
  context : AutopinContext := {}

namespace StandardConfiguration

/-- `removeDuplicates` keeps the first of equal values. -/
def removeDuplicates (values : List String) : List String := values.eraseDups

def setOption (opt : String × List String) (c : StandardConfiguration) : StandardConfiguration :=
  if opt.2.isEmpty then c else { c with options := c.options.insert opt.1 opt.2 }

def addOption (opt : String × List String) (c : StandardConfiguration) : StandardConfiguration :=
  if opt.2.isEmpty then c
  else
    { c with
      options := c.options.insert opt.1 (removeDuplicates ((c.options.lookup opt.1).getD [] ++ opt.2)) }

def delOption (opt : String × List String) (c : StandardConfiguration) : StandardConfiguration :=
  if opt.2.isEmpty then c
  else
    match c.options.lookup opt.1 with
    | none => c
    | some values =>
      { c with
        options := c.options.insert opt.1 (opt.2.foldl (fun l v => l.filter (· ≠ v)) values) }

/-- The pair a line stands for, from what is left and right of its operator. -/
def argPair (arg : List Char × List Char) : String × List String :=
  (String.ofList (QString.trimmed arg.1), (QString.split ' ' arg.2).map String.ofList)

/-- The operators are looked for one after the other, each in the whole line. -/
def getArgs (arg : List Char) (c : StandardConfiguration) : StandardConfiguration :=
  match QString.cut "+=".toList arg with
  | some p => addOption (argPair p) c
  | none =>
    match QString.cut "-=".toList arg with
    | some p => delOption (argPair p) c
    | none =>
      match QString.cut "=".toList arg with
      | some p => setOption (argPair p) c
      | none =>
        { c with
          context := c.context.report .badConfig "option_format"
            ("Invalid option format: \"" ++ String.ofList arg ++ "\"") }

/-- A line loses its end, which is a line feed or a carriage return and a line feed. -/
def chopReturn (line : List Char) : List Char :=
  if line.getLast? = some '\r' then line.dropLast else line

/-- The lines `QTextStream::readLine` returns until the end of the text. A carriage return at
the end of the text counts as a line end, too. -/
def readLines (text : List Char) : List (List Char) :=
  let parts := text.splitOn '\n'
  (parts.dropLast ++ parts.getLast?.toList.filter (fun part => !part.isEmpty)).map chopReturn

def parseLine (c : StandardConfiguration) (line : List Char) : StandardConfiguration :=
  if line.head? = some '#' then c else getArgs line c

def parseConfigurationFile (configText : String) (c : StandardConfiguration) : StandardConfiguration :=
  (readLines configText.toList).foldl parseLine c

/-- A configuration after its constructor and `init`. -/
def ofText (configText : String) (context : AutopinContext) : StandardConfiguration :=
  parseConfigurationFile configText { context := context }

/-! ## The accessors of `Configuration` -/

def getConfigOptionList (c : StandardConfiguration) (opt : String) : List String :=
  (c.options.lookup opt).getD []

def getConfigOption (c : StandardConfiguration) (opt : String) : String :=
  (c.getConfigOptionList opt).head?.getD ""

def configOptionExists (c : StandardConfiguration) (opt : String) : Nat := (c.getConfigOptionList opt).length

def getConfigOptionInt (c : StandardConfiguration) (opt : String) : Int :=
  (QString.toInt (c.getConfigOption opt)).getD 0

end StandardConfiguration

/-- What is asked of `QString::toDouble`: whether the value is not 0, and the `ok` flag. -/
structure DoubleText where
  nonzero : Bool := false
  ok : Bool := false

namespace StandardConfiguration

variable (toDouble : String → DoubleText)

def getConfigOptionBool (c : StandardConfiguration) (opt : String) : Bool :=
  let val := c.getConfigOption opt
  if val = "true" ∨ val = "True" ∨ val = "TRUE" then true
  else if val = "false" ∨ val = "False" ∨ val = "FALSE" then false
  else (toDouble val).nonzero

def configOptionBool (c : StandardConfiguration) (opt : String) : Bool :=
  let val := c.getConfigOption opt
  (toDouble val).ok || val = "true" || val = "True" || val = "TRUE" ||
    val = "false" || val = "False" || val = "FALSE"

end StandardConfiguration

end AutopinPlus
