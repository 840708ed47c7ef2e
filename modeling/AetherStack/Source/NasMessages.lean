import AetherStack.Source.Bytes

/-!
# NAS messages

Source: stack/nas/src/nas_messages.cpp:5-26 and include/nas/nas_messages.h. The type octet
is cast to the enumeration without a check, so every octet is a message type. A PDU
shorter than the header decodes to the default message, an ATTACH_REQUEST with an
empty value, and a PDU shorter than its length field keeps its type and loses its value.
-/
namespace AetherStack.Source

inductive NasMessageType where
  | attachRequest
  | attachAccept
  | attachReject
  | detach
  | authRequest
  | authResponse
  | authFailure
  | unassigned (octet : UInt8)
  deriving DecidableEq, Repr

namespace NasMessageType

def toOctet : NasMessageType → UInt8
  | attachRequest => 1
  | attachAccept => 2
  | attachReject => 3
  | detach => 4
  | authRequest => 5
  | authResponse => 6
  | authFailure => 7
  | unassigned octet => octet

/-- The `static_cast` of `decode`. -/
def ofOctet (octet : UInt8) : NasMessageType :=
  if octet = 1 then attachRequest
  else if octet = 2 then attachAccept
  else if octet = 3 then attachReject
  else if octet = 4 then detach
  else if octet = 5 then authRequest
  else if octet = 6 then authResponse
  else if octet = 7 then authFailure
  else unassigned octet

end NasMessageType

structure NasMessage where
  msgType : NasMessageType := .attachRequest
  value : Bytes := []
  deriving DecidableEq, Repr

namespace NasMessage

/-- The length field is the low half of the value's length. -/
def encode (m : NasMessage) : Bytes :=
  m.msgType.toOctet :: (putU16 m.value.length ++ m.value)

def decode (data : Bytes) : NasMessage :=
  if data.length < 3 then {}
  else
    let len := getU16 data 1
    { msgType := .ofOctet (data.getD 0 0)
      value := if data.length ≥ 3 + len then (data.drop 3).take len else [] }

theorem ofOctet_toOctet {t : NasMessageType} (h : ∀ octet, t ≠ .unassigned octet) :
    NasMessageType.ofOctet t.toOctet = t := by
  cases t with
  | unassigned octet => exact absurd rfl (h octet)
  | _ => rfl

/-- A message whose length fits the field comes back as it was. -/
theorem decode_encode {m : NasMessage} (htype : ∀ octet, m.msgType ≠ .unassigned octet)
    (hlen : m.value.length < snModulus) : decode m.encode = m := by
  have hfield : getU16 m.encode 1 = m.value.length := by
    have := getU16_putU16 [m.msgType.toOctet] m.value m.value.length
    simpa [encode, Nat.mod_eq_of_lt hlen] using this
  have hsize : m.encode.length = 3 + m.value.length := by
    simp [encode, putU16]
    omega
  have hdrop : m.encode.drop 3 = m.value := by simp [encode, putU16]
  unfold decode
  rw [if_neg (by omega)]
  simp only [hfield, hdrop, if_pos (Nat.le_of_eq hsize.symm), List.take_length]
  cases m with
  | mk msgType value =>
    simp only [encode, List.getD_cons_zero]
    rw [ofOctet_toOctet htype]

end NasMessage

end AetherStack.Source
