import Mathlib.Logic.Function.Basic

/-!
# Writing and reading back

A codec writes values and reads them, and both may fail.  A codec for one type is carried
over to another that is packed into it and unpacked again.
-/

universe u v w

structure Codec (B : Type u) (E : Type v) (α : Type u) where
  encode : α → Except E B
  decode : B → Except E α

namespace Codec

variable {B α β : Type u} {E : Type v} {F : Type w}

/-- Every value is read back as it was written. -/
def RoundTrips (codec : Codec B E α) : Prop :=
  ∀ value, (codec.encode value).bind codec.decode = .ok value

def mapError (wrap : E → F) (codec : Codec B E α) : Codec B F α where
  encode value := (codec.encode value).mapError wrap
  decode bytes := (codec.decode bytes).mapError wrap

/-- The codec of a type that is packed into another; unpacking may fail. -/
def tryVia (pack : α → β) (unpack : β → Except E α) (codec : Codec B E β) :
    Codec B E α where
  encode value := codec.encode (pack value)
  decode bytes := (codec.decode bytes).bind unpack

def via (pack : α → β) (unpack : β → α) (codec : Codec B E β) : Codec B E α :=
  codec.tryVia pack fun packed => .ok (unpack packed)

namespace RoundTrips

theorem mapError (wrap : E → F) {codec : Codec B E α} (hcodec : codec.RoundTrips) :
    (codec.mapError wrap).RoundTrips := by
  intro value
  calc
    ((codec.encode value).mapError wrap).bind
          (fun bytes => (codec.decode bytes).mapError wrap) =
        ((codec.encode value).bind codec.decode).mapError wrap := by
      cases codec.encode value <;> rfl
    _ = .ok value := by
      rw [hcodec value]
      rfl

theorem tryVia {pack : α → β} {unpack : β → Except E α} {codec : Codec B E β}
    (hcodec : codec.RoundTrips) (hunpack : ∀ value, unpack (pack value) = .ok value) :
    (codec.tryVia pack unpack).RoundTrips := by
  intro value
  calc
    (codec.encode (pack value)).bind (fun bytes => (codec.decode bytes).bind unpack) =
        ((codec.encode (pack value)).bind codec.decode).bind unpack := by
      cases codec.encode (pack value) <;> rfl
    _ = unpack (pack value) := by
      rw [hcodec (pack value)]
      rfl
    _ = .ok value := hunpack value

theorem via {pack : α → β} {unpack : β → α} {codec : Codec B E β}
    (hcodec : codec.RoundTrips) (hunpack : Function.LeftInverse unpack pack) :
    (codec.via pack unpack).RoundTrips :=
  hcodec.tryVia fun value => congrArg Except.ok (hunpack value)

end RoundTrips

end Codec
