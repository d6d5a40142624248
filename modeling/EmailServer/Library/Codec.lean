import Mathlib.Data.Countable.Basic
import Mathlib.Data.Finmap
import Mathlib.Logic.Equiv.List
import EmailServer.Library.Bytes

/-! # Invertible text encodings

What a library writes as text it reads back as it was. Any countable type has such an
encoding, and any one value can be given the text that it is known to have.
-/

namespace EmailServer

structure Codec (α : Type) where
  encode : α → Bytes
  decode : Bytes → Option α
  decode_encode : ∀ a, decode (encode a) = some a

namespace Codec

variable {α : Type}

/-- Some encoding, by the number of a value in an enumeration. -/
noncomputable def ofCountable (α : Type) [Countable α] : Codec α :=
  have := Encodable.ofCountable α
  { encode := fun a => List.replicate (Encodable.encode a) 0
    decode := fun text => Encodable.decode text.length
    decode_encode := fun a => by simp }

/-- The encoding with the text of one value changed to `text`, and what had that text
    written as that value was. -/
def writing [DecidableEq Bytes] (codec : Codec α) (a : α) (text : Bytes) : Codec α where
  encode b := Equiv.swap (codec.encode a) text (codec.encode b)
  decode read := codec.decode (Equiv.swap (codec.encode a) text read)
  decode_encode b := by simp [codec.decode_encode]

theorem writing_encode [DecidableEq Bytes] (codec : Codec α) (a : α) (text : Bytes) :
    (codec.writing a text).encode a = text := by simp [writing]

end Codec

instance countableByte : Countable UInt8 :=
  have numbered : Function.Injective UInt8.toNat := fun _ _ => UInt8.toNat_inj.mp
  numbered.countable

instance countableFinmap {α : Type} {β : α → Type} [Countable α] [∀ a, Countable (β a)] :
    Countable (Finmap β) :=
  have entries : Function.Injective (Finmap.entries : Finmap β → Multiset (Sigma β)) :=
    fun _ _ same => Finmap.ext same
  have : Countable (Multiset (Sigma β)) := Quotient.countable
  entries.countable

end EmailServer
