import Mathlib

/-!
# Codecs

A serializer that a program trusts: encoding is total, decoding may refuse,
and decoding what was encoded gives it back. `Codec.id` is the trivial one.
-/

namespace Peryx

universe u v

/-- An encoding that reads back. -/
structure Codec (α : Type u) (Bytes : Type v) where
  encode : α → Bytes
  decode : Bytes → Option α
  decode_encode : ∀ a, decode (encode a) = some a

def Codec.id (α : Type u) : Codec α α where
  encode a := a
  decode := some
  decode_encode _ := rfl

end Peryx
