import AetherStack.Source.Sip
import AetherStack.Source.Qos

/-!
# UE-to-UE packets and conferences

Source: stack/app/src/u2u.cpp:55-125 (the packet header) and the conference table of
stack/core/src/bs_node.cpp:931-1055. The signalling payload of such a packet is with the
call control.
-/
namespace AetherStack.Source

structure U2uPacket where
  kind : MediaKind := .msg
  ack : Bool := false
  ending : Bool := false
  seq : Nat := 0
  timestampMs : Nat := 0
  srcImsi : Imsi := []
  dstImsi : Imsi := []
  confId : Nat := 0
  payload : Bytes := []
  deriving DecidableEq, Repr

def u2uMagic : UInt8 := 0xA5
def u2uFlagConf : UInt8 := 0x20
def u2uFlagEnd : UInt8 := 0x40
def u2uFlagAck : UInt8 := 0x80
def u2uMaxImsiLen : Nat := 32

def U2uPacket.kindOctet (p : U2uPacket) : UInt8 :=
  (p.kind.code &&& 0x0F) ||| (if p.confId ≠ 0 then u2uFlagConf else 0) |||
    (if p.ending then u2uFlagEnd else 0) ||| (if p.ack then u2uFlagAck else 0)

def encodeU2u (p : U2uPacket) : Bytes :=
  u2uMagic :: p.kindOctet :: (putU32 p.seq ++ putU32 p.timestampMs ++
    UInt8.ofNat p.srcImsi.length :: p.srcImsi ++ UInt8.ofNat p.dstImsi.length :: p.dstImsi ++
    (if p.confId ≠ 0 then putU32 p.confId else []) ++ p.payload)

/-- The kind in the low nibble; anything above SIG is no packet. -/
def mediaKindOfNibble? (nibble : UInt8) : Option MediaKind :=
  [.msg, .voice, .video, .sig].find? fun k : MediaKind => k.code = nibble

def decodeU2u (data : Bytes) : Option U2uPacket :=
  if data.length < 12 ∨ data.getD 0 0 ≠ u2uMagic then none
  else
    let kindByte := data.getD 1 0
    let hasConf := kindByte &&& u2uFlagConf ≠ 0
    let srcLen := (data.getD 10 0).toNat
    let dstLen := (data.getD (11 + srcLen) 0).toNat
    let confLen := if hasConf then 4 else 0
    match mediaKindOfNibble? (kindByte &&& 0x0F) with
    | none => none
    | some kind =>
      if srcLen = 0 ∨ srcLen > u2uMaxImsiLen ∨ data.length < 12 + srcLen then none
      else if dstLen = 0 ∧ ¬ hasConf then none
      else if dstLen > u2uMaxImsiLen ∨ data.length < 12 + srcLen + dstLen + confLen then none
      else
        some {
          kind := kind
          ending := kindByte &&& u2uFlagEnd ≠ 0
          ack := kindByte &&& u2uFlagAck ≠ 0
          seq := getU32 data 2
          timestampMs := getU32 data 6
          srcImsi := (data.drop 11).take srcLen
          dstImsi := (data.drop (12 + srcLen)).take dstLen
          confId := if hasConf then getU32 data (12 + srcLen + dstLen) else 0
          payload := data.drop (12 + srcLen + dstLen + confLen) }

/-- `qci_of`: messages go with best effort. -/
def qciOf : MediaKind → Qci
  | .msg => .bestEffort
  | .voice => .voice
  | .video => .video
  | .sig => .sig

/-! ## Conferences -/

structure Conference where
  host : Imsi := []
  members : List Imsi := []
  invited : List Imsi := []
  resolved : List Imsi := []
  everMulti : Bool := false
  deriving DecidableEq, Repr

abbrev ConfTable := Std.ExtTreeMap Nat Conference

namespace ConfTable

def maybeEnd (t : ConfTable) (confId : Nat) : ConfTable :=
  match t[confId]? with
  | none => t
  | some c =>
    if c.members.length ≥ 2 ∨ c.invited.length ≠ c.resolved.length then t else t.erase confId

/-- `conf_leave`: the host leaving ends the conference. -/
def leave (t : ConfTable) (confId : Nat) (imsi : Imsi) : ConfTable :=
  match t[confId]? with
  | none => t
  | some c =>
    if imsi = c.host then t.erase confId
    else maybeEnd (t.insert confId { c with members := c.members.filter (· ≠ imsi) }) confId

/-- `purge_conf_member`. -/
def purgeMember (t : ConfTable) (imsi : Imsi) : ConfTable :=
  t.keys.foldl (fun t confId =>
    match t[confId]? with
    | none => t
    | some c => if c.host = imsi ∨ imsi ∈ c.members then t.leave confId imsi else t) t

def onInvite (t : ConfTable) (id : Nat) (src dst : Imsi) : ConfTable :=
  let c := (t[id]?).getD {}
  let c := if c.host = [] then { c with host := src, members := c.members ++ [src] } else c
  t.insert id (if src = c.host ∧ dst ∉ c.invited then { c with invited := c.invited ++ [dst] } else c)

def onJoin (c : Conference) (src : Imsi) : Conference :=
  if src ∈ c.members then c
  else
    let members := c.members ++ [src]
    { c with
      members := members
      resolved := if src ∈ c.invited ∧ src ∉ c.resolved then c.resolved ++ [src] else c.resolved
      everMulti := c.everMulti || members.length ≥ 2 }

/-- An invitation of `party` has its final answer. -/
def resolve (t : ConfTable) (id : Nat) (c : Conference) (party : Imsi) : ConfTable :=
  if party ∈ c.invited ∧ party ∉ c.resolved then
    maybeEnd (t.insert id { c with resolved := c.resolved ++ [party] }) id
  else t

/-- `snoop_conf_sig`. -/
def snoopSig (t : ConfTable) (src dst : Imsi) (msg : SigMessage) : ConfTable :=
  let id := msg.confId.toNat
  match msg.method with
  | .invite => t.onInvite id src dst
  | method =>
    match t[id]? with
    | none => t
    | some c =>
      match method with
      | .ok200 => t.insert id (onJoin c src)
      | .bye => if src ∈ c.members then t.leave id src else t
      | .busy486 | .decline603 => t.resolve id c src
      | .cancel => if src = c.host then t.resolve id c dst else t
      | _ => t

end ConfTable

end AetherStack.Source
