import Potter.Lib.Tally
import Potter.Utils.Geo

/-!
# Nets and connections

The records of `db/connection.h`. A net counts, for every node, how many of its connections use it
(`usersConnectionCounts`). Between two barriers the changes are collected in two further maps, and
merged into the counts at the barrier (`updatePreIncrement`, `updatePreDecrement`, which also touch
the nodes and stand with the router's state).
-/

namespace Potter

open Lib

/-- The user counts of a net and their changes since the last barrier. -/
structure NetUsers (V : Type) where
  usersConnectionCounts : Tally V
  userConnectionToDecrement : Tally V
  userConnectionToIncrement : Tally V

namespace NetUsers

variable {V : Type}

/-- The counts of a new net. -/
def init : NetUsers V := ⟨∅, ∅, ∅⟩

def clearPreDecrement (u : NetUsers V) : NetUsers V := { u with userConnectionToDecrement := ∅ }

def clearPreIncrement (u : NetUsers V) : NetUsers V := { u with userConnectionToIncrement := ∅ }

variable [DecidableEq V]

def countConnectionsOfUser (u : NetUsers V) (rnode : V) : Int := u.usersConnectionCounts.count rnode

/-- The result says whether the node is new to the net. -/
def incrementUser (u : NetUsers V) (rnode : V) : NetUsers V × Bool :=
  let (counts, newlyAdd) := u.usersConnectionCounts.incr rnode
  ({ u with usersConnectionCounts := counts }, newlyAdd)

/-- The result says whether the net has left the node. -/
def decrementUser (u : NetUsers V) (rnode : V) : NetUsers V × Bool :=
  let (counts, isErased) := u.usersConnectionCounts.decr rnode
  ({ u with usersConnectionCounts := counts }, isErased)

/-- The program stops when more users would leave than there are. -/
def preDecrementUser (u : NetUsers V) (rnode : V) : Option (NetUsers V) :=
  let toDecrement := (u.userConnectionToDecrement.incr rnode).1
  if toDecrement.count rnode ≤ u.usersConnectionCounts.count rnode then
    some { u with userConnectionToDecrement := toDecrement }
  else none

def getPreDecrementUser (u : NetUsers V) (rnode : V) : Int :=
  u.userConnectionToDecrement.count rnode

def preIncrementUser (u : NetUsers V) (rnode : V) : NetUsers V :=
  { u with userConnectionToIncrement := (u.userConnectionToIncrement.incr rnode).1 }

def getPreIncrementUser (u : NetUsers V) (rnode : V) : Int :=
  u.userConnectionToIncrement.count rnode

/-- The maps after all nodes of a path were pre-decremented. -/
def leaving (u : NetUsers V) (l : List V) : NetUsers V :=
  { u with userConnectionToDecrement := u.userConnectionToDecrement.incrAll l }

/-- The maps after all nodes of a path were pre-incremented. -/
def entering (u : NetUsers V) (l : List V) : NetUsers V :=
  { u with userConnectionToIncrement := u.userConnectionToIncrement.incrAll l }

end NetUsers

/-- The part of a net that is fixed while routing. -/
structure Net (C : Type) where
  indirectConns : List C
  directConns : List Nat := []
  xCenter : Int
  yCenter : Int
  doubleHpwl : Int
  xmin : Int
  xmax : Int
  ymin : Int
  ymax : Int

namespace Net

variable {C : Type}

def getConnectionSize (net : Net C) : Int := net.indirectConns.length

def getDirectConnectionSize (net : Net C) : Int := net.directConns.length

def getArea (net : Net C) : Int := (net.xmax - net.xmin) * (net.ymax - net.ymin)

end Net

/-- The part of a connection that is fixed while routing. -/
structure Connection (V N : Type) where
  netId : N
  source : V
  sink : V
  xmin : Int
  xmax : Int
  ymin : Int
  ymax : Int
  bbox : BoxT
  hpwl : Int

/-- The route of a connection, from its sink to its source. -/
structure ConnState (V : Type) where
  rnodes : List V
  isRouted : Bool
  isRoutedThisIter : Bool
  lastRoutedIter : Int
  numNodesExplored : Int
deriving DecidableEq

namespace ConnState

variable {V : Type}

def resetRoute (c : ConnState V) : ConnState V := { c with rnodes := [] }

def setRouted (c : ConnState V) (routed : Bool) : ConnState V := { c with isRouted := routed }

def setRoutedThisIter (c : ConnState V) (routed : Bool) : ConnState V :=
  { c with isRoutedThisIter := routed }

end ConnState

end Potter
