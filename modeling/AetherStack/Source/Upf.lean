import AetherStack.Source.CheckedMessages

/-!
# The user-plane anchor and its datagrams

Source: stack/cn/src/upf.cpp:6-60 with include/cn/upf.h, the sink that
stack/cn/src/upfd_main.cpp:48-52 gives it, the envelope of stack/cn/src/cn_messages.cpp:5-25 and
the carrier of include/cn/udp_cn_link.h:26-49. A datagram that the network takes arrives in a
buffer of 2048 octets, and `recvfrom` drops what does not fit. The heartbeat and the log are left
out.
-/
namespace AetherStack.Source

namespace CnMsgType

def toOctet : CnMsgType → UInt8
  | ngSetup => 1
  | ngSetupOk => 2
  | initialUeMsg => 3
  | uplinkNas => 4
  | downlinkNas => 5
  | sessionKey => 6
  | hoRequired => 9
  | hoCommand => 10
  | hoNotify => 11
  | hoPrepared => 12
  | other octet => octet

/-- The `static_cast` of `decode`. -/
def ofOctet (octet : UInt8) : CnMsgType :=
  if octet = 1 then ngSetup
  else if octet = 2 then ngSetupOk
  else if octet = 3 then initialUeMsg
  else if octet = 4 then uplinkNas
  else if octet = 5 then downlinkNas
  else if octet = 6 then sessionKey
  else if octet = 9 then hoRequired
  else if octet = 10 then hoCommand
  else if octet = 11 then hoNotify
  else if octet = 12 then hoPrepared
  else other octet

/-- One branch of the cast. -/
theorem toOctet_branch {octet k : UInt8} {t rest : CnMsgType} (ht : t.toOctet = k)
    (hrest : rest.toOctet = octet) : (if octet = k then t else rest).toOctet = octet := by
  split
  · rename_i heq
    rw [ht, heq]
  · exact hrest

theorem toOctet_ofOctet (octet : UInt8) : (ofOctet octet).toOctet = octet :=
  toOctet_branch rfl <| toOctet_branch rfl <| toOctet_branch rfl <| toOctet_branch rfl <|
    toOctet_branch rfl <| toOctet_branch rfl <| toOctet_branch rfl <| toOctet_branch rfl <|
      toOctet_branch rfl <| toOctet_branch rfl rfl

end CnMsgType

namespace CnMessage

def encode (m : CnMessage) : Bytes := m.msgType.toOctet :: (putU16 m.value.length ++ m.value)

/-- Too short a datagram decodes to the default message; a value may be cut short. -/
def decode (data : Bytes) : CnMessage :=
  if data.length < 3 then ⟨.ngSetup, []⟩
  else ⟨.ofOctet (data.getD 0 0), (data.drop 3).take (min (getU16 data 1) (data.length - 3))⟩

theorem length_encode (m : CnMessage) : m.encode.length = 3 + m.value.length := by
  rw [encode, List.length_cons, List.length_append, length_putU16]
  omega

/-- What `decode` makes of the front of an encoding. -/
theorem decode_take_encode {m : CnMessage} (htype : CnMsgType.ofOctet m.msgType.toOctet = m.msgType)
    (hlen : m.value.length < snModulus) {k : Nat} (hk : 3 ≤ k) :
    decode (m.encode.take k) = { m with value := m.value.take (k - 3) } := by
  obtain ⟨j, rfl⟩ := Nat.exists_eq_add_of_le' hk
  have hfront : m.encode.take (j + 3) =
      [m.msgType.toOctet] ++ (putU16 m.value.length ++ m.value.take j) := rfl
  have hfield : getU16 (m.encode.take (j + 3)) 1 = m.value.length := by
    rw [hfront]
    exact (getU16_putU16 [m.msgType.toOctet] _ _).trans (Nat.mod_eq_of_lt hlen)
  have hsize : (m.encode.take (j + 3)).length = min j m.value.length + 3 := by
    rw [List.length_take, length_encode]
    omega
  have hdrop : (m.encode.take (j + 3)).drop 3 = m.value.take j := by rw [hfront]; rfl
  have hhead : (m.encode.take (j + 3)).getD 0 0 = m.msgType.toOctet := by rw [hfront]; rfl
  have hwhole : min m.value.length (min j m.value.length + 3 - 3) = (m.value.take j).length := by
    rw [List.length_take]
    omega
  rw [decode, if_neg (by omega), hhead, htype, hdrop, hfield, hsize, hwhole, List.take_length,
    Nat.add_sub_cancel]

end CnMessage

/-- The largest payload of a UDP datagram. -/
def kMaxDatagram : Nat := 65507

/-- The receive buffer of `UdpCnLink`. -/
def kCnReceiveBuffer : Nat := 2048

/-- `UdpCnLink::send` at one end and `receive` at the other. -/
def udpCarry (m : CnMessage) : Option CnMessage :=
  if m.encode.length > kMaxDatagram then none
  else some (CnMessage.decode (m.encode.take kCnReceiveBuffer))

namespace Upf

/-- UL_DATA {tmsi:4}{rnti:2} ++ payload, PATH_SWITCH {tmsi:4}{rnti:2}{cell:2}. -/
def handle (u : Upf) (msg : CnMessage) : Upf :=
  match msg.msgType with
  | .other 32 =>
    if msg.value.length < 6 then u
    else
      let tmsi := getU32 msg.value 0
      { routes := u.routes.insert tmsi { (u.routes[tmsi]?).getD {} with rnti := getU16 msg.value 4 }
        sunk := u.sunk ++ [(tmsi, msg.value.drop 6)] }
  | .other 34 =>
    if msg.value.length < 8 then u
    else
      { u with routes := u.routes.insert (getU32 msg.value 0) ⟨getU16 msg.value 4, getU16 msg.value 6⟩ }
  | _ => u

/-- DL_DATA {tmsi:4}{rnti:2} ++ pdu, to a UE with a route. -/
def sendDownlink (u : Upf) (tmsi : Nat) (pdu : Bytes) : Option CnMessage :=
  (u.routes[tmsi]?).map fun r => ⟨.other 33, putU32 tmsi ++ putU16 r.rnti ++ pdu⟩

def sessionCount (u : Upf) : Nat := u.routes.size

/-- `handle` with the sink of the standalone process: each PDU goes back at once. -/
def echo (u : Upf) (msg : CnMessage) : Upf × List CnMessage :=
  let handled := u.handle msg
  (handled, (handled.sunk.drop u.sunk.length).filterMap fun s => handled.sendDownlink s.1 s.2)

/-- A uplink datagram is echoed and its sender becomes the route. -/
theorem handle_ulData (u : Upf) {value : Bytes} (h : 6 ≤ value.length) :
    u.handle ⟨.other 32, value⟩ =
      { routes := u.routes.insert (getU32 value 0)
          { (u.routes[getU32 value 0]?).getD {} with rnti := getU16 value 4 }
        sunk := u.sunk ++ [(getU32 value 0, value.drop 6)] } :=
  if_neg (by dsimp only; omega)

theorem handle_pathSwitch (u : Upf) {value : Bytes} (h : 8 ≤ value.length) :
    u.handle ⟨.other 34, value⟩ =
      { u with routes := u.routes.insert (getU32 value 0) ⟨getU16 value 4, getU16 value 6⟩ } :=
  if_neg (by dsimp only; omega)

/-- What a message has to be to change anything. -/
theorem handle_ignored (u : Upf) {msg : CnMessage} (hdata : msg.msgType = .other 32 → msg.value.length < 6)
    (hswitch : msg.msgType = .other 34 → msg.value.length < 8) : u.handle msg = u := by
  rw [handle]
  split
  · rename_i htype
    rw [if_pos (hdata htype)]
  · rename_i htype
    rw [if_pos (hswitch htype)]
  · rfl

/-- The handler with checked accesses is this one. -/
theorem checkedHandle_eq (u : Upf) (msg : CnMessage) : u.checkedHandle msg = some (u.handle msg) := by
  obtain ⟨type, value⟩ := msg
  rw [checkedHandle]
  split
  · rename_i htype
    obtain rfl : type = .other 32 := htype
    split
    · rename_i hshort
      rw [handle_ignored u (fun _ => hshort) (fun h => absurd (CnMsgType.other.inj h) (by decide))]
    · rename_i hlong
      have hlong : 6 ≤ value.length := Nat.le_of_not_lt hlong
      rw [handle_ulData u hlong, readU32_eq (by dsimp only; omega), readU16_eq (by dsimp only; omega),
        Lib.readRange_eq_drop (by dsimp only; omega)]
      rfl
  · rename_i htype
    obtain rfl : type = .other 34 := htype
    split
    · rename_i hshort
      rw [handle_ignored u (fun h => absurd (CnMsgType.other.inj h) (by decide)) (fun _ => hshort)]
    · rename_i hlong
      have hlong : 8 ≤ value.length := Nat.le_of_not_lt hlong
      rw [handle_pathSwitch u hlong, readU32_eq (by dsimp only; omega), readU16_eq (by dsimp only; omega),
        readU16_eq (by dsimp only; omega)]
      rfl
  · rename_i hdata hswitch
    rw [handle_ignored u (fun h => absurd h hdata) (fun h => absurd h hswitch)]

end Upf

end AetherStack.Source
