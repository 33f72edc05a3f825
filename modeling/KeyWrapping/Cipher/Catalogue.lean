import KeyWrapping.Cipher.Aes
import KeyWrapping.Cipher.Belt

/-!
# Algorithms by name

An algorithm is asked for by its name and, if it matters, its provider; no name for the provider stands for any. Each
algorithm has one provider, so asking for another one finds nothing.
-/

namespace KeyWrapping.Catalogue

/-- The names on offer and what they stand for. -/
def entries : List (String × Algorithm) :=
  [("AES-128", Aes.algorithm .bits128), ("AES-192", Aes.algorithm .bits192), ("AES-256", Aes.algorithm .bits256),
    ("BelT", Belt.algorithm), ("BelT-256", Belt.algorithm)]

/-- The algorithm with a name, from the named provider or, if its name is empty, from any. -/
def find? (name provider : String) : Option Algorithm :=
  (entries.lookup name).filter fun a => provider.isEmpty || a.provider.name == provider

/-- The algorithm with a name, or the error that there is none. -/
def find (name provider : String) : Except Error Algorithm :=
  match find? name provider with
  | some a => .ok a
  | none => .error (.unavailable "Block cipher" name provider)

/-- The providers of an algorithm. -/
def providers (name : String) : List Provider :=
  [Provider.base, Provider.backend].filter fun p => (find? name p.name).isSome

end KeyWrapping.Catalogue
