/-!
# Words on a command line

A word that begins with two dashes and goes on after them is a flag, or, if an equals sign occurs in it, an option: its
name ends at the first equals sign and its value begins behind it. Every other word is plain. The same rule reads the
declarations of a command and the words that it is given (`Item.ofWord`). Text is cut into words at blanks (`words`).
-/

namespace KeyWrapping.Command

/-- What a word on a command line is. -/
inductive Item where
  | flag (name : String)
  /-- An option with a value, or with its default where it is declared. -/
  | option (name value : String)
  | plain (word : String)
  deriving DecidableEq, Repr

namespace Item

/-- Reads the characters of a word. -/
def ofChars : List Char → Item
  | '-' :: '-' :: c :: rest =>
    let body := c :: rest
    let name := String.ofList (body.takeWhile (· != '='))
    match body.dropWhile (· != '=') with
    | [] => .flag name
    | _ :: value => .option name (String.ofList value)
  | word => .plain (String.ofList word)

/-- Reads a word. -/
def ofWord (word : String) : Item := ofChars word.toList

/-- The name, if the item is a flag. -/
def flag? : Item → Option String
  | flag name => some name
  | _ => none

/-- The name and the value, if the item is an option. -/
def option? : Item → Option (String × String)
  | option name value => some (name, value)
  | _ => none

/-- The word, if the item is plain. -/
def plain? : Item → Option String
  | plain word => some word
  | _ => none

end Item

/-- Whether a character separates words. -/
def isBlank (c : Char) : Bool := c ∈ [' ', '\t', '\n', '\x0b', '\x0c', '\r']

/-- The words of a text, where `word` is the beginning of the first one, read backwards. -/
def wordsAfter (word : List Char) : List Char → List (List Char)
  | [] => if word.isEmpty then [] else [word.reverse]
  | c :: text =>
    if isBlank c then (if word.isEmpty then [] else [word.reverse]) ++ wordsAfter [] text
    else wordsAfter (c :: word) text

/-- The words of a text, in order; none of them is empty or has a blank in it. -/
def words (text : List Char) : List (List Char) := wordsAfter [] text

end KeyWrapping.Command
