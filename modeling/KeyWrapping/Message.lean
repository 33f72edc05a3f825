/-!
# Message texts

`Message.fill` puts arguments into a format whose markers are pairs of braces. The markers are taken from left to
right, one for each argument; an argument is never read again, so braces in it stay as they are. What is left of the
format when the arguments run out is kept as it stands, markers included, and surplus arguments are dropped.
-/

namespace KeyWrapping.Message

/-- The format with its markers replaced by the arguments, as lists of characters. -/
def fillChars : List Char → List (List Char) → List Char
  | format, [] => format
  | [], _ :: _ => []
  | '\x7b' :: '\x7d' :: format, arg :: args => arg ++ fillChars format args
  | c :: format, arg :: args => c :: fillChars format (arg :: args)

/-- The format with its markers replaced by the arguments, from left to right. -/
def fill (format : String) (args : List String) : String :=
  String.ofList (fillChars format.toList (args.map String.toList))

/-- The text up to its first NUL, which is where readers of messages stop. -/
def untilNul (text : String) : String := String.ofList (text.toList.takeWhile (· != '\x00'))

/-- A text without a NUL is read to its end. -/
theorem untilNul_eq {text : String} (h : '\x00' ∉ text.toList) : untilNul text = text := by
  have hall : ∀ c ∈ text.toList, (c != '\x00') = true := by
    intro c hc
    rw [bne_iff_ne]
    rintro rfl
    exact h hc
  have htake : (text.toList ++ []).takeWhile (· != '\x00') = text.toList ++ [].takeWhile (· != '\x00') :=
    List.takeWhile_append_of_pos hall
  rw [List.append_nil, List.takeWhile_nil, List.append_nil] at htake
  rw [untilNul, htake, String.ofList_toList]

end KeyWrapping.Message
