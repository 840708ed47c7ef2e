import AetherStack.Source.RrcUe
import Std.Data.ExtTreeMap

/-!
# RRC of the base station

Source: stack/rrc/src/rrc_bs.cpp:12-222 and include/rrc/rrc_bs.h. As at the UE, what the callbacks
get is what a call returns beside the new entity, in order; none of them calls back into
the entity. The search of a RESUME_REQUEST walks an unordered map and stops at the first
match, so the order of the keys is an argument. The log is left out.
-/
namespace AetherStack.Source.Rrc

structure BsUeContext where
  cRnti : Nat := 0
  state : UeState := .idle
  resumeId : Nat := 0
  deriving DecidableEq, Repr

inductive RrcBsOutput where
  | send (rnti : Nat) (pdu : Bytes)
  | reest (oldRnti newRnti : Nat)
  | suspended (rnti : Nat)
  deriving DecidableEq, Repr

/-- `cellId`, `plmnId` and `tac` are the SIB1 the entity broadcasts. -/
structure RrcBs where
  cellId : Nat := 1
  plmnId : Bytes := [52, 54, 48, 48, 49]
  tac : Nat := 1
  ueContexts : Std.ExtTreeMap Nat BsUeContext := ∅
  nextCrnti : Nat := 1
  crntiBase : Nat := 1
  nextResumeSeq : UInt32 := 1

namespace RrcBs

def make (cellId : Nat) (plmnId : Bytes) (tac crntiBase : Nat) : RrcBs :=
  { cellId := cellId, plmnId := plmnId, tac := tac, nextCrnti := crntiBase, crntiBase := crntiBase }

def findUe (r : RrcBs) (rnti : Nat) : Option BsUeContext := r.ueContexts[rnti]?

def isUeConnected (r : RrcBs) (rnti : Nat) : Bool :=
  (r.findUe rnti).any fun ctx => ctx.state = .connected

def putUe (r : RrcBs) (rnti : Nat) (ctx : BsUeContext) : RrcBs :=
  { r with ueContexts := r.ueContexts.insert rnti ctx }

def releaseContext (r : RrcBs) (rnti : Nat) : RrcBs :=
  { r with ueContexts := r.ueContexts.erase rnti }

def admitConnected (r : RrcBs) (crnti : Nat) : RrcBs :=
  r.putUe crnti { cRnti := crnti, state := .connected }

def reactivateContext (r : RrcBs) (rnti : Nat) : RrcBs :=
  match r.findUe rnti with
  | none => r
  | some ctx =>
    if ctx.state ≠ .inactive then r
    else r.putUe rnti { ctx with state := .connected, resumeId := 0 }

/-- `broadcast_mib().encode()`. -/
def mibPdu : Bytes := [10, 0, 0, 50, 0]

/-- `broadcast_sib1().encode()`. -/
def sib1Pdu (r : RrcBs) : Bytes := 11 :: (r.plmnId ++ 0 :: (putU16 r.tac ++ putU16 r.cellId))

/-- (c_rnti << 16) | seq; the sequence number has 32 bits. -/
def resumeIdentity (rnti : Nat) (seq : UInt32) : Nat := (rnti <<< 16) % u32Modulus ||| seq.toNat

def suspendRelease (rnti resumeId : Nat) : Bytes :=
  RrcMessage.encode { msgType := .release, value := putU16 rnti ++ 1 :: putU32 resumeId }

def suspendContext (r : RrcBs) (rnti : Nat) : RrcBs × List RrcBsOutput :=
  match r.findUe rnti with
  | none => (r, [])
  | some ctx =>
    if ctx.state ≠ .connected then (r, [])
    else
      let resumeId := resumeIdentity rnti r.nextResumeSeq
      ({ r.putUe rnti { ctx with state := .inactive, resumeId := resumeId } with
          nextResumeSeq := r.nextResumeSeq + 1 },
        [.send rnti (suspendRelease rnti resumeId), .suspended rnti])

/-- The C-RNTI of the MAC, or one of its own when it is called without. -/
def assign (r : RrcBs) (rnti : Nat) : RrcBs × Nat :=
  if rnti ≠ 0 then (r, rnti)
  else ({ r with nextCrnti := (r.nextCrnti + 1) % snModulus }, r.nextCrnti)

def reply (type : RrcMessageType) (value : Bytes) : Bytes :=
  RrcMessage.encode { msgType := type, value := value }

/-- A request that names another cell is not answered. -/
def foreignCell (r : RrcBs) (value : Bytes) : Bool :=
  value.length ≥ 2 ∧ getU16 value 0 ≠ 0 ∧ getU16 value 0 ≠ r.cellId

def onSetupRequest (r : RrcBs) (rnti : Nat) (value : Bytes) : RrcBs × List RrcBsOutput :=
  if r.foreignCell value then (r, [])
  else
    let crnti := (r.assign rnti).2
    ((r.assign rnti).1.putUe crnti { cRnti := crnti, state := .connecting },
      [.send crnti (reply .setup (putU16 crnti))])

def onSetupComplete (r : RrcBs) (rnti : Nat) : RrcBs :=
  match r.findUe rnti with
  | none => r
  | some ctx => r.putUe rnti { ctx with state := .connected }

/-- RELEASE: bit 1 of the flags asks for a suspension; else the context only goes idle. -/
def onRelease (r : RrcBs) (rnti : Nat) (value : Bytes) : RrcBs × List RrcBsOutput :=
  if value.length ≥ 3 ∧ (value.getD 2 0 &&& 2) ≠ 0 then r.suspendContext rnti
  else
    match r.findUe rnti with
    | none => (r, [])
    | some ctx => (r.putUe rnti { ctx with state := .idle }, [])

/-- The context goes on under a C-RNTI of the MAC: the data path follows, then the answer. -/
def migrate (r : RrcBs) (oldRnti rnti : Nat) (ctx : BsUeContext) (ok : RrcMessageType) :
    RrcBs × List RrcBsOutput :=
  let crnti := (r.assign rnti).2
  (((r.assign rnti).1.releaseContext oldRnti).putUe crnti { ctx with cRnti := crnti },
    [.reest oldRnti crnti, .send crnti (reply ok (putU16 crnti))])

/-- The ownership gate: the high half of a resume identity is a C-RNTI of the cell. -/
def ownsResumeId (r : RrcBs) (resumeId : Nat) : Bool :=
  r.crntiBase ≤ resumeId >>> 16 ∧ resumeId >>> 16 < r.crntiBase + 0x2000

/-- The suspended context with that identity. -/
def findSuspended (r : RrcBs) (order : List Nat) (resumeId : Nat) : Option (Nat × BsUeContext) :=
  order.findSome? fun rnti => (r.findUe rnti).bind fun ctx =>
    if ctx.state = .inactive ∧ ctx.resumeId = resumeId then some (rnti, ctx) else none

def onResumeRequest (r : RrcBs) (order : List Nat) (rnti : Nat) (value : Bytes) :
    RrcBs × List RrcBsOutput :=
  let resumeId := getU32 value 0
  if !r.ownsResumeId resumeId then (r, [])
  else
    match r.findSuspended order resumeId with
    | none => (r, [.send rnti (reply .resumeFailure [])])
    | some (oldRnti, ctx) =>
      r.migrate oldRnti rnti { ctx with state := .connected, resumeId := 0 } .resumeOk

def onReestablishmentRequest (r : RrcBs) (rnti : Nat) (value : Bytes) :
    RrcBs × List RrcBsOutput :=
  let oldRnti := if value.length ≥ 2 then getU16 value 0 else 0
  match r.findUe oldRnti with
  | none => (r, [.send rnti (reply .reestablishmentFailure [])])
  | some ctx =>
    if oldRnti = 0 ∨ ctx.state ≠ .connected then
      (r, [.send rnti (reply .reestablishmentFailure [])])
    else r.migrate oldRnti rnti ctx .reestablishmentOk

def handleMessage (r : RrcBs) (order : List Nat) (rnti : Nat) (pdu : Bytes) :
    RrcBs × List RrcBsOutput :=
  let msg := RrcMessage.decode pdu
  match msg.msgType with
  | .setupRequest => r.onSetupRequest rnti msg.value
  | .setupComplete => (r.onSetupComplete rnti, [])
  | .release => r.onRelease rnti msg.value
  | .resumeRequest => r.onResumeRequest order rnti msg.value
  | .reestablishmentRequest => r.onReestablishmentRequest rnti msg.value
  | _ => (r, [])

/-! ### Lookups -/

section
variable (r : RrcBs) (rnti s : Nat)

theorem findUe_putUe_eq (ctx : BsUeContext) :
    (r.putUe rnti ctx).findUe s = if rnti = s then some ctx else r.findUe s := by
  simp [putUe, findUe, Std.ExtTreeMap.getElem?_insert]

theorem findUe_releaseContext_eq :
    (r.releaseContext rnti).findUe s = if rnti = s then none else r.findUe s := by
  simp [releaseContext, findUe, Std.ExtTreeMap.getElem?_erase]

theorem findUe_assign : (r.assign rnti).1.findUe s = r.findUe s := by
  unfold assign
  split <;> rfl

end

theorem isUeConnected_iff {r : RrcBs} {rnti : Nat} :
    r.isUeConnected rnti = true ↔ ∃ ctx, r.findUe rnti = some ctx ∧ ctx.state = .connected := by
  simp [isUeConnected, Option.any_eq_true]

/-- The high half of an identity: the C-RNTI, with the high half of the sequence number in it. -/
theorem resumeIdentity_high {rnti : Nat} (seq : UInt32) (h : rnti < snModulus) :
    resumeIdentity rnti seq >>> 16 = rnti ||| seq.toNat >>> 16 := by
  have hshift : (rnti <<< 16) % u32Modulus = rnti <<< 16 := by
    refine Nat.mod_eq_of_lt ?_
    simp only [Nat.shiftLeft_eq, u32Modulus, snModulus] at h ⊢
    omega
  rw [resumeIdentity, hshift, Nat.shiftRight_or_distrib, Nat.shiftLeft_shiftRight]

/-! ### What a message can do -/

/-- Everything `handle_message` can do, with the guards of each branch. -/
inductive Handled (r : RrcBs) (rnti : Nat) (msg : RrcMessage) : RrcBs → List RrcBsOutput → Prop
  | ignored : Handled r rnti msg r []
  | refused (type : RrcMessageType) :
    msg.msgType = .resumeRequest ∨ msg.msgType = .reestablishmentRequest →
    Handled r rnti msg r [.send rnti (reply type [])]
  | setup :
    msg.msgType = .setupRequest →
    r.foreignCell msg.value = false →
    Handled r rnti msg
      ((r.assign rnti).1.putUe (r.assign rnti).2 { cRnti := (r.assign rnti).2, state := .connecting })
      [.send (r.assign rnti).2 (reply .setup (putU16 (r.assign rnti).2))]
  | completed {ctx : BsUeContext} :
    msg.msgType = .setupComplete →
    r.findUe rnti = some ctx →
    Handled r rnti msg (r.putUe rnti { ctx with state := .connected }) []
  | released {ctx : BsUeContext} :
    msg.msgType = .release →
    r.findUe rnti = some ctx →
    Handled r rnti msg (r.putUe rnti { ctx with state := .idle }) []
  | suspended :
    msg.msgType = .release →
    (r.findUe rnti).isSome →
    Handled r rnti msg (r.suspendContext rnti).1 (r.suspendContext rnti).2
  | resumed {oldRnti : Nat} {ctx : BsUeContext} :
    msg.msgType = .resumeRequest →
    r.ownsResumeId (getU32 msg.value 0) = true →
    r.findUe oldRnti = some ctx →
    ctx.state = .inactive →
    ctx.resumeId = getU32 msg.value 0 →
    Handled r rnti msg
      (r.migrate oldRnti rnti { ctx with state := .connected, resumeId := 0 } .resumeOk).1
      (r.migrate oldRnti rnti { ctx with state := .connected, resumeId := 0 } .resumeOk).2
  | reestablished {ctx : BsUeContext} :
    msg.msgType = .reestablishmentRequest →
    r.findUe (getU16 msg.value 0) = some ctx →
    ctx.state = .connected →
    Handled r rnti msg
      (r.migrate (getU16 msg.value 0) rnti ctx .reestablishmentOk).1
      (r.migrate (getU16 msg.value 0) rnti ctx .reestablishmentOk).2

/-- A resume identity finds a suspended context that has it. -/
theorem findSuspended_some {r : RrcBs} {order : List Nat} {resumeId oldRnti : Nat}
    {ctx : BsUeContext} (h : r.findSuspended order resumeId = some (oldRnti, ctx)) :
    r.findUe oldRnti = some ctx ∧ ctx.state = .inactive ∧ ctx.resumeId = resumeId := by
  obtain ⟨rnti, -, hbind⟩ := List.exists_of_findSome?_eq_some h
  obtain ⟨ctx', hfind, hif⟩ := Option.bind_eq_some_iff.mp hbind
  split at hif
  · rename_i hmatch
    obtain ⟨rfl, rfl⟩ := Prod.mk.inj (Option.some.inj hif)
    exact ⟨hfind, hmatch⟩
  · cases hif

/-- A suspension sends RELEASE with the identity. -/
theorem suspendContext_handled {r : RrcBs} {rnti : Nat} {msg : RrcMessage}
    (htype : msg.msgType = .release) :
    Handled r rnti msg (r.suspendContext rnti).1 (r.suspendContext rnti).2 := by
  cases hfind : r.findUe rnti with
  | none =>
    simp only [suspendContext, hfind]
    exact .ignored
  | some ctx => exact .suspended htype (by rw [hfind]; rfl)

/-- What the base station does with a RRC message is what `Handled` lists. -/
theorem handleMessage_handled (r : RrcBs) (order : List Nat) (rnti : Nat) (pdu : Bytes) :
    Handled r rnti (RrcMessage.decode pdu) (r.handleMessage order rnti pdu).1
      (r.handleMessage order rnti pdu).2 := by
  unfold handleMessage
  dsimp only
  generalize RrcMessage.decode pdu = msg
  split
  · rename_i htype
    unfold onSetupRequest
    split
    · exact .ignored
    · rename_i hown
      exact .setup htype (by simpa using hown)
  · rename_i htype
    unfold onSetupComplete
    split
    · exact .ignored
    · rename_i ctx hfind
      exact .completed htype hfind
  · rename_i htype
    unfold onRelease
    split
    · exact suspendContext_handled htype
    · split
      · exact .ignored
      · rename_i ctx hfind
        exact .released htype hfind
  · rename_i htype
    unfold onResumeRequest
    dsimp only
    split
    · exact .ignored
    · rename_i howns
      split
      · exact .refused _ (.inl htype)
      · rename_i oldRnti ctx hfound
        obtain ⟨hfind, hstate, hid⟩ := findSuspended_some hfound
        exact .resumed htype (by simpa using howns) hfind hstate hid
  · rename_i htype
    unfold onReestablishmentRequest
    dsimp only
    by_cases hlen : msg.value.length ≥ 2
    · simp only [if_pos hlen]
      split
      · exact .refused _ (.inr htype)
      · rename_i ctx hfind
        split
        · exact .refused _ (.inr htype)
        · rename_i hknown
          push Not at hknown
          exact .reestablished htype hfind hknown.2
    · -- without an old C-RNTI the request is refused, whatever is at key zero
      simp only [if_neg hlen]
      split
      · exact .refused _ (.inr htype)
      · rw [if_pos (.inl trivial)]
        exact .refused _ (.inr htype)
  · exact .ignored

end RrcBs

end AetherStack.Source.Rrc
