import NdnMobile.Packet.Name
import Mathlib.Logic.Function.Basic

/-!
# The forwarder

The tables of the forwarding engine that the mobile engine edits: the faces, the FIB, the
strategy table and the counter that hands out face ids. A face is added with a
cancellation token: a child of the engine's shutdown token or of one of the successive
network tokens. Cancelling a token ends the faces that were added with it, and the
nexthops to them go with those that are not persistent.
-/

namespace NdnMobile.Engine

open NdnMobile.Packet

abbrev FaceId := Nat

inductive FaceKind where
  | app
  | compute
  | udp
  | tcp
  | webSocket
  | webTransport
  | serial
  | multicast
  | wifiAware
  | bluetooth
  | wifiDirect
  | infraTunnel
  deriving DecidableEq, Repr

/-- What a face's token is a child of; network tokens are numbered in the order they are made. -/
inductive Token where
  | shutdown
  | network (gen : Nat)
  deriving DecidableEq, Repr

structure Face where
  id : FaceId
  kind : FaceKind
  token : Token
  persistent : Bool
  deriving DecidableEq, Repr

structure Nexthop where
  faceId : FaceId
  cost : Nat
  deriving DecidableEq, Repr

inductive Strategy where
  | bestRoute
  | multicast
  | measured
  | cclf
  deriving DecidableEq, Repr

structure Forwarder where
  nextId : FaceId
  faces : List Face
  fib : Name → List Nexthop
  strategyTable : Name → Option Strategy

namespace Forwarder

variable (fw : Forwarder)

/-- `faces().alloc_id()` hands out `nextId`. -/
def allocId : Forwarder := { fw with nextId := fw.nextId + 1 }

def addFace (f : Face) : Forwarder := { fw with faces := fw.faces ++ [f] }

/-- Drops every nexthop that `gone` holds of. -/
def dropNexthops (gone : FaceId → Bool) : Forwarder :=
  { fw with fib := fun prefix' => (fw.fib prefix').filter fun nh => !gone nh.faceId }

def removeFace (id : FaceId) : Forwarder :=
  { fw with faces := fw.faces.filter fun f => f.id != id }.dropNexthops (· == id)

/-- `fib().add_nexthop`: a second nexthop to a face replaces the first. -/
def addNexthop (prefix' : Name) (id : FaceId) (cost : Nat) : Forwarder :=
  { fw with
    fib := Function.update fw.fib prefix'
      ((fw.fib prefix').filter (fun nh => nh.faceId != id) ++ [⟨id, cost⟩]) }

/-- `strategy_table().insert`. -/
def setStrategy (prefix' : Name) (st : Strategy) : Forwarder :=
  { fw with strategyTable := Function.update fw.strategyTable prefix' (some st) }

/-- Cancelling a token ends the faces added with it. -/
def cancel (token : Token) : Forwarder :=
  { fw with faces := fw.faces.filter fun f => f.token != token }.dropNexthops fun id =>
    fw.faces.any fun f => f.id == id && f.token == token && !f.persistent

/-- A face with this id is up. -/
def Live (id : FaceId) : Prop := ∃ f ∈ fw.faces, f.id = id

instance (id : FaceId) : Decidable (fw.Live id) := inferInstanceAs (Decidable (∃ f ∈ _, _))

/-! ## What each table edit leaves alone -/

variable {fw} {id id' : FaceId} {p q : Name} {cost : Nat} {st : Strategy} {f : Face} {tok : Token}

@[simp] theorem strategyTable_allocId : fw.allocId.strategyTable = fw.strategyTable := rfl
@[simp] theorem strategyTable_addFace : (fw.addFace f).strategyTable = fw.strategyTable := rfl
@[simp] theorem strategyTable_removeFace :
    (fw.removeFace id).strategyTable = fw.strategyTable := rfl
@[simp] theorem strategyTable_addNexthop :
    (fw.addNexthop p id cost).strategyTable = fw.strategyTable := rfl
@[simp] theorem strategyTable_cancel : (fw.cancel tok).strategyTable = fw.strategyTable := rfl
@[simp] theorem strategyTable_setStrategy :
    (fw.setStrategy p st).strategyTable = Function.update fw.strategyTable p (some st) := rfl

@[simp] theorem faces_allocId : fw.allocId.faces = fw.faces := rfl
@[simp] theorem faces_addFace : (fw.addFace f).faces = fw.faces ++ [f] := rfl
@[simp] theorem faces_removeFace :
    (fw.removeFace id).faces = fw.faces.filter fun f => f.id != id := rfl
@[simp] theorem faces_addNexthop : (fw.addNexthop p id cost).faces = fw.faces := rfl
@[simp] theorem faces_setStrategy : (fw.setStrategy p st).faces = fw.faces := rfl
@[simp] theorem faces_cancel :
    (fw.cancel tok).faces = fw.faces.filter fun f => f.token != tok := rfl

@[simp] theorem nextId_allocId : fw.allocId.nextId = fw.nextId + 1 := rfl
@[simp] theorem nextId_addFace : (fw.addFace f).nextId = fw.nextId := rfl
@[simp] theorem nextId_removeFace : (fw.removeFace id).nextId = fw.nextId := rfl
@[simp] theorem nextId_addNexthop : (fw.addNexthop p id cost).nextId = fw.nextId := rfl
@[simp] theorem nextId_setStrategy : (fw.setStrategy p st).nextId = fw.nextId := rfl
@[simp] theorem nextId_cancel : (fw.cancel tok).nextId = fw.nextId := rfl

end Forwarder

end NdnMobile.Engine
