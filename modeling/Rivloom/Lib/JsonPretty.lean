import Rivloom.Lib.JsonParse

/-!
# JSON text on several lines

The printer that puts every item of an array and every member of an object on a line of
its own, two blanks further in for each level. It writes the same values as the compact
printer of `Rivloom.Lib.Json`: all it does is put blanks where the parser skips them.
-/

namespace Rivloom

namespace Json

/-! ### The printer -/

/-- The end of a line and the blanks that begin the next one. -/
def newline (level : ℕ) : List Char := '\n' :: List.replicate (2 * level) ' '

mutual

/-- The text of a value whose brackets stand at a level. -/
def pretty (level : ℕ) : Json → List Char
  | .null => text .null
  | .bool b => text (.bool b)
  | .num n => text (.num n)
  | .str s => text (.str s)
  | .arr [] => ['[', ']']
  | .arr (x :: xs) =>
    '[' :: (newline (level + 1) ++ (pretty (level + 1) x ++
      (prettyItems (level + 1) xs ++ (newline level ++ [']']))))
  | .obj [] => ['{', '}']
  | .obj ((k, v) :: ms) =>
    '{' :: (newline (level + 1) ++ (quote k ++ ':' :: ' ' :: (pretty (level + 1) v ++
      (prettyMembers (level + 1) ms ++ (newline level ++ ['}'])))))

/-- The items of an array after the first, each behind its comma and on its line. -/
def prettyItems (level : ℕ) : List Json → List Char
  | [] => []
  | x :: xs => ',' :: (newline level ++ (pretty level x ++ prettyItems level xs))

/-- The members of an object after the first, each behind its comma and on its line. -/
def prettyMembers (level : ℕ) : List (String × Json) → List Char
  | [] => []
  | (k, v) :: ms =>
    ',' :: (newline level ++ (quote k ++ ':' :: ' ' :: (pretty level v ++ prettyMembers level ms)))

end

/-- The text of a document: the value, and the end of its last line. -/
def prettyText (j : Json) : List Char := pretty 0 j ++ ['\n']

/-- The text of a document as bytes. -/
def prettyBytes (j : Json) : ByteArray := (String.ofList j.prettyText).toByteArray

end Json

end Rivloom
