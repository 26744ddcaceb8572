import Cappo.CapabilityMount.Models

/-!
# Consequence permits

`permits.py`: a permit authenticates the operation, its mount, its receipt, the digest of the
payload and the target, joined by newlines. The digest that a target presents is any text, so
newlines in it must not let one message pass for another.

## Main results

* `permitMessage_injective`: the fields of a permit can be read back from its message, if none
  but the digest has a newline.
-/

namespace CapabilityMount

open VdbC1 (PyStr Bytes)

def newline : VdbC1.CodePoint := 10

/-- `"\n".join(parts)`. -/
def joinLines : List PyStr → PyStr
  | [] => []
  | [part] => part
  | part :: parts => part ++ newline :: joinLines parts

/-- The message that `mint_permit` authenticates, without the domain. -/
def permitMessage (p : Permit) : PyStr :=
  joinLines [p.operationId, p.mountId, p.receiptId.getD [], p.payloadSha256, p.targetRef]

namespace Deployment

variable (D : Deployment)

/-- `mint_permit`; it raises without a target and when the message cannot be encoded. -/
def mintPermit (key : Bytes) (p : Permit) : Option PyStr :=
  if p.targetRef = [] then none
  else D.hmacText key ("veklom-consequence-permit-v2\n" ++ permitMessage p)

/-- `redeem_message`, before it is encoded. -/
def redeemMessage (operationId payloadSha256 permit targetRef : PyStr) : Option PyStr := do
  let permitSha256 ← D.sha256Text permit
  let message := joinLines
    ["veklom-target-redeem-v1", operationId, payloadSha256, permitSha256, targetRef]
  if message.encodable then some message else none

end Deployment

/-- The last line can be read back, whatever the lines before it hold. -/
lemma append_newline_inj (ha : newline ∉ a) (hb : newline ∉ b)
    (h : u ++ newline :: a = v ++ newline :: b) : u = v ∧ a = b := by
  -- read from the end, the last line comes first
  have hrev := congrArg List.reverse h
  simp only [List.reverse_append, List.reverse_cons, List.append_assoc,
    List.singleton_append] at hrev
  obtain ⟨hab, huv⟩ := JsonText.append_cons_inj (by simpa using ha) (by simpa using hb) hrev
  exact ⟨List.reverse_injective huv, List.reverse_injective hab⟩

/-- A permit all of whose fields but the digest are free of newlines. -/
structure Permit.Plain (p : Permit) : Prop where
  operationId : newline ∉ p.operationId
  mountId : newline ∉ p.mountId
  receiptId : newline ∉ p.receiptId.getD []
  targetRef : newline ∉ p.targetRef

/-- Two permits with one message agree in every field; a missing receipt reads as an empty
one. -/
theorem permitMessage_injective {p q : Permit} (hp : p.Plain) (hq : q.Plain)
    (h : permitMessage p = permitMessage q) :
    p.operationId = q.operationId ∧ p.mountId = q.mountId ∧
      p.receiptId.getD [] = q.receiptId.getD [] ∧ p.payloadSha256 = q.payloadSha256 ∧
      p.targetRef = q.targetRef := by
  simp only [permitMessage, joinLines] at h
  obtain ⟨hop, h⟩ := JsonText.append_cons_inj hp.operationId hq.operationId h
  obtain ⟨hmount, h⟩ := JsonText.append_cons_inj hp.mountId hq.mountId h
  obtain ⟨hreceipt, h⟩ := JsonText.append_cons_inj hp.receiptId hq.receiptId h
  obtain ⟨hpayload, htarget⟩ := append_newline_inj hp.targetRef hq.targetRef h
  exact ⟨hop, hmount, hreceipt, hpayload, htarget⟩

end CapabilityMount
