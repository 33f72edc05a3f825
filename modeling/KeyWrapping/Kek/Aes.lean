import KeyWrapping.Cipher.Catalogue
import KeyWrapping.Kek.Object
import KeyWrapping.Wrap.Service

/-!
# AES key encryption keys

A key encryption key of 16, 24 or 32 bytes keys the AES cipher of that size, and offers the four services. There are
objects that keep the keyed cipher (`AesKek.kind`), and single calls that make one for the occasion (`AesKek.once`).
-/

namespace KeyWrapping

/-- AES of one size under a key encryption key. -/
structure AesKek where
  size : Aes.KeySize
  cipher : Cipher (Aes.algorithm size)

namespace AesKek

/-- The content for a key encryption key, which has to be of a length that AES has. -/
def create (kek : Bytes) : Except Error AesKek :=
  match Aes.KeySize.ofBytes? kek.length with
  | none => .error (.invalidKeyLength "AES key wrap" kek.length)
  | some size => do
    let cipher ← (Cipher.fresh (Aes.algorithm size)).setKey kek
    return ⟨size, cipher⟩

/-- The result of a service under a key encryption key that is used this once. -/
def once (service : Service) (kek data : Bytes) : Except Error Bytes := do
  let k ← create kek
  service.run k.cipher data

/-- What an object can be asked. -/
inductive Call where
  | name
  | result (service : Service) (data : Bytes)
  /-- The result of a service in the caller's buffer. -/
  | into (service : Service) (data buffer : Bytes)
  /-- The result of a service for data of a length that is fixed beforehand. -/
  | fixed (service : Service) (data : Bytes)

/-- What an object answers. -/
inductive Answer where
  | name (name : Except Error String)
  | result (bytes : Except Error Bytes)
  | delivered (delivery : Delivery)

/-- The answer of an object. -/
def answer (object : Object AesKek) : Call → Answer
  | .name => .name (object.content.map fun k => k.size.name)
  | .result service data => .result (object.content >>= fun k => service.run k.cipher data)
  | .into service data buffer =>
    .delivered <|
      match object.content with
      | .ok k => service.runInto k.cipher data buffer
      | .error e => ⟨.error e, buffer⟩
  | .fixed service data => .result (object.content >>= fun k => service.runFixed k.cipher data)

/-- Objects that hold an AES key encryption key. -/
def kind : ObjectKind := ⟨AesKek, Call, Answer, create, answer⟩

end AesKek

end KeyWrapping
