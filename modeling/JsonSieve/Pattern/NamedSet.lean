/-
Sets of characters that have a name: ASCII sets, general categories and other properties, and the
sets with their members' variants in case. Properties follow the edition of the standard before the
latest.
-/
import JsonSieve.Pattern.CharSet
import JsonSieve.Unicode.Property
import JsonSieve.Unicode.Category
import JsonSieve.Unicode.CaseOrbit

namespace JsonSieve.Pattern

/-! ## ASCII sets -/

/-- The ASCII digits. -/
def asciiDigit : CharSet := .range '0' '9'

/-- The ASCII letters. -/
def asciiLetter : CharSet := .union (.range 'A' 'Z') (.range 'a' 'z')

/-- The ASCII word characters. -/
def asciiWord : CharSet := .unionOf [asciiLetter, asciiDigit, .single '_']

/-- The ASCII white space. -/
def asciiSpace : CharSet := .union (.range '\t' '\r') (.single ' ')

/-- The set of ASCII characters under a name in brackets and colons. -/
def asciiClass? : String → Option CharSet
  | "alnum" => some (.union asciiLetter asciiDigit)
  | "alpha" => some asciiLetter
  | "ascii" => some (.range '\x00' '\x7f')
  | "blank" => some (.union (.single '\t') (.single ' '))
  | "cntrl" => some (.union (.range '\x00' '\x1f') (.single '\x7f'))
  | "digit" => some asciiDigit
  | "graph" => some (.range '!' '~')
  | "lower" => some (.range 'a' 'z')
  | "print" => some (.range ' ' '~')
  | "punct" =>
    some (.unionOf [.range '!' '/', .range ':' '@', .range '[' '\x60', .range '\x7b' '~'])
  | "space" => some asciiSpace
  | "upper" => some (.range 'A' 'Z')
  | "word" => some asciiWord
  | "xdigit" => some (.unionOf [asciiDigit, .range 'A' 'F', .range 'a' 'f'])
  | _ => none

/-- The general categories under a name: one category, or a group of them. Surrogates are no
characters, and their category has no name here. -/
def categories? (name : String) : Option (List Unicode.Category) :=
  match name with
  | "l" | "letter" =>
    some [.uppercaseLetter, .lowercaseLetter, .titlecaseLetter, .modifierLetter, .otherLetter]
  | "lc" | "casedletter" => some [.uppercaseLetter, .lowercaseLetter, .titlecaseLetter]
  | "lu" | "uppercaseletter" => some [.uppercaseLetter]
  | "ll" | "lowercaseletter" => some [.lowercaseLetter]
  | "lt" | "titlecaseletter" => some [.titlecaseLetter]
  | "lm" | "modifierletter" => some [.modifierLetter]
  | "lo" | "otherletter" => some [.otherLetter]
  | "m" | "mark" | "combiningmark" => some [.nonspacingMark, .spacingMark, .enclosingMark]
  | "mn" | "nonspacingmark" => some [.nonspacingMark]
  | "mc" | "spacingmark" => some [.spacingMark]
  | "me" | "enclosingmark" => some [.enclosingMark]
  | "n" | "number" => some [.decimalNumber, .letterNumber, .otherNumber]
  | "nd" | "decimalnumber" | "digit" => some [.decimalNumber]
  | "nl" | "letternumber" => some [.letterNumber]
  | "no" | "othernumber" => some [.otherNumber]
  | "p" | "punctuation" | "punct" =>
    some [.connectorPunctuation, .dashPunctuation, .openPunctuation, .closePunctuation,
      .initialPunctuation, .finalPunctuation, .otherPunctuation]
  | "pc" | "connectorpunctuation" => some [.connectorPunctuation]
  | "pd" | "dashpunctuation" => some [.dashPunctuation]
  | "ps" | "openpunctuation" => some [.openPunctuation]
  | "pe" | "closepunctuation" => some [.closePunctuation]
  | "pi" | "initialpunctuation" => some [.initialPunctuation]
  | "pf" | "finalpunctuation" => some [.finalPunctuation]
  | "po" | "otherpunctuation" => some [.otherPunctuation]
  | "s" | "symbol" => some [.mathSymbol, .currencySymbol, .modifierSymbol, .otherSymbol]
  | "sm" | "mathsymbol" => some [.mathSymbol]
  | "sc" | "currencysymbol" => some [.currencySymbol]
  | "sk" | "modifiersymbol" => some [.modifierSymbol]
  | "so" | "othersymbol" => some [.otherSymbol]
  | "z" | "separator" => some [.spaceSeparator, .lineSeparator, .paragraphSeparator]
  | "zs" | "spaceseparator" => some [.spaceSeparator]
  | "zl" | "lineseparator" => some [.lineSeparator]
  | "zp" | "paragraphseparator" => some [.paragraphSeparator]
  | "c" | "other" => some [.control, .format, .privateUse, .unassigned]
  | "cc" | "control" | "cntrl" => some [.control]
  | "cf" | "format" => some [.format]
  | "co" | "privateuse" => some [.privateUse]
  | "cn" | "unassigned" => some [.unassigned]
  | _ => none

/-! ## Properties -/

/-- The code points of categories; the flag says whether the code point in front is one. -/
def changesOf (among : List Unicode.Category) : Bool → List Unicode.Run → List Nat
  | inside, [] => if inside then [0x110000] else []
  | inside, run :: runs =>
    let next := among.contains run.category
    CharSet.consChange run.first inside next (changesOf among next runs)

/-- The characters that the latest edition of the standard has assigned. -/
def recentSet : CharSet := .ofRanges Unicode.recent

/-- The characters of categories. -/
def ofCategories (among : List Unicode.Category) : CharSet :=
  let latest : CharSet := ⟨changesOf among false Unicode.runs.toList⟩
  let settled := latest.minus recentSet
  let settled := if among.contains .unassigned then settled.union recentSet else settled
  let former := CharSet.ofRanges Unicode.formerlyLowercase
  let settled :=
    if among.contains .lowercaseLetter then settled.union former else settled.minus former
  CharSet.all.inter settled

/-- The characters of closed ranges that have not been assigned lately. -/
def ofSettled (ranges : List (Nat × Nat)) : CharSet :=
  (CharSet.ofRanges ranges).minus recentSet

/-- The alphabetic characters. -/
def alphabeticSet : CharSet :=
  .union (ofSettled Unicode.otherAlphabetic)
    (ofCategories [.uppercaseLetter, .lowercaseLetter, .titlecaseLetter, .modifierLetter,
      .otherLetter, .letterNumber])

/-- The white space. -/
def blankSet : CharSet := .ofRanges Unicode.blanks

/-- The decimal digits of all scripts. -/
def decimalSet : CharSet := ofCategories [.decimalNumber]

/-- The characters that extend the one before them. -/
def extendingSet : CharSet :=
  .union (ofSettled Unicode.otherExtending) (ofCategories [.nonspacingMark, .enclosingMark])

/-- The word characters: alphabetic characters, marks, decimal digits, connectors, and the two
zero-width joiners. -/
def wordSet : CharSet :=
  .unionOf [alphabeticSet, .ofRanges [(0x200C, 0x200D)],
    ofCategories [.nonspacingMark, .spacingMark, .enclosingMark, .decimalNumber,
      .connectorPunctuation]]

/-- A name without the differences that do not count: case, blanks, low lines, hyphens, and a
leading `is`. -/
def looseName (name : Text) : String :=
  let name := match name with
    | a :: b :: rest =>
      if a.toLower = 'i' ∧ b.toLower = 's' ∧ !rest.isEmpty then rest else name
    | _ => name
  let kept := name.filter fun c => c.toNat < 0x80 && c != ' ' && c != '_' && c != '-'
  String.ofList (kept.map Char.toLower)

/-- The set under a general category's name. -/
def categorySet? : String → Option CharSet
  | "any" => some .all
  | "ascii" => some (.range '\x00' '\x7f')
  | "assigned" => some (ofCategories [.unassigned]).negate
  | name => (categories? name).map ofCategories

/-- The set under the name of a property. -/
def property? : String → Option CharSet
  | "alphabetic" | "alpha" => some alphabeticSet
  | "whitespace" | "wspace" | "space" => some blankSet
  | "graphemeextend" | "grext" => some extendingSet
  | name => categorySet? name

/-- A set that a name in braces denotes, and whether its complement is meant. -/
structure Named where
  negated : Bool
  set : CharSet

/-- What a name in braces denotes: a property, or a general category after its property's name and
an equality sign, a colon or an inequality sign. -/
def named? (name : Text) : Option Named :=
  let valued (negated : Bool) (left right : Text) : Option Named :=
    match looseName left with
    | "gc" | "generalcategory" => (categorySet? (looseName right)).map (⟨negated, ·⟩)
    | _ => none
  match Text.cutAt? ['!', '='] name with
  | some (left, right) => valued true left right
  | none =>
    match Text.cutAt? [':'] name <|> Text.cutAt? ['='] name with
    | some (left, right) => valued false left right
    | none => (property? (looseName name)).map (⟨false, ·⟩)

/-! ## Variants in case -/

/-- The set of code points given in any order, each at most once. -/
def ofCodes (codes : List Nat) : CharSet :=
  .ofRanges (codes.mergeSort.map fun n => (n, n))

/-- A set with all that differs from a member in case alone. -/
def anyCase (s : CharSet) : CharSet :=
  s.union (ofCodes (Unicode.orbits.filter (·.any s.hasCode)).flatten)

/-- A set with the ASCII letters that differ from a member in case alone. -/
def anyAsciiCase (s : CharSet) : CharSet :=
  let pairs := (List.range 26).map fun i => ['A'.toNat + i, 'a'.toNat + i]
  s.union (ofCodes (pairs.filter (·.any s.hasCode)).flatten)

end JsonSieve.Pattern
