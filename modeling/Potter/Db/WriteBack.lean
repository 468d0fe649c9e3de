import Potter.Db.Connection
import Potter.Db.Device
import Potter.Db.PhysNetlist
import Potter.Db.RouteNode
import Potter.Lib.Worklist

/-!
# Writing the routing back

`Netlist::write` turns the routing of a net, a set of successors for every node, into the tree of
route branches the physical netlist holds. It looks for the branch of the source site pin, walks the
nodes of the net from there, first in first out, and writes below the branch of a node one branch
with a PIP for every successor and, at a sink pin, a copy of the stub of that pin.
-/

namespace Potter

open Lib

/-! ## The routing of a node -/

/-- The successors are a set of pointers into the vector of nodes: they are visited in the order of
the nodes, and none is visited twice. -/
structure RouteResult (V N : Type) [LT V] where
  netId : Option N
  branches : List V
  sorted : branches.Pairwise (· < ·)

/-- What `write` reads: the netlist with its device and string list, and the routing. -/
structure Netlist (V N C : Type) [LT V] where
  device : Device V
  nodeType : V → NodeType
  nets : N → Net C
  strList : List String
  nodeRoutingResults : V → RouteResult V N

/-! ## New strings -/

/-- The names of the device that were added to the string list, and where. -/
structure NewStrings where
  newStrList : List String
  newStrIdMap : Nat → Option Nat

namespace NewStrings

def empty : NewStrings := ⟨[], fun _ => none⟩

/-- The index of a name, which is added when it is new. -/
def getStringIndex (oldStrLen : Nat) (s : NewStrings) (d : Nat × String) : Nat × NewStrings :=
  match s.newStrIdMap d.1 with
  | some i => (i, s)
  | none =>
    let i := oldStrLen + s.newStrList.length
    (i, ⟨s.newStrList ++ [d.2], Function.update s.newStrIdMap d.1 (some i)⟩)

/-- The string list of the written netlist. -/
def mergedStrList (strList : List String) (s : NewStrings) : List String := strList ++ s.newStrList

/-- The names that were added have the given indices. -/
def Agrees (s : NewStrings) (index : Nat → Nat) : Prop :=
  ∀ id i, s.newStrIdMap id = some i → index id = i

theorem exists_agrees (s : NewStrings) : ∃ index, s.Agrees index := by
  refine ⟨fun id => (s.newStrIdMap id).getD 0, fun id i hid => ?_⟩
  dsimp only
  rw [hid, Option.getD_some]

/-- A name whose index is settled was added with it. -/
theorem newStrIdMap_eq_of_agrees {s : NewStrings} {id i : Nat}
    (h : ∀ index, s.Agrees index → index id = i) : s.newStrIdMap id = some i := by
  obtain ⟨index, hindex⟩ := s.exists_agrees
  cases hid : s.newStrIdMap id with
  | some j => rw [← h index hindex, hindex id j hid]
  | none =>
    have hother : s.Agrees (Function.update index id (i + 1)) := by
      intro a j ha
      have hne : a ≠ id := by
        rintro rfl
        rw [hid] at ha
        cases ha
      rw [Function.update_of_ne hne]
      exact hindex a j ha
    have heq := h _ hother
    rw [Function.update_self] at heq
    omega

/-- A name gets its index, and no other name loses its own. -/
theorem getStringIndex_spec {oldStrLen i : Nat} {s s' : NewStrings} {d : Nat × String}
    (h : s.getStringIndex oldStrLen d = (i, s')) {index : Nat → Nat} (hindex : s'.Agrees index) :
    s.Agrees index ∧ i = index d.1 := by
  unfold getStringIndex at h
  split at h
  · next j hj =>
    cases h
    exact ⟨hindex, (hindex _ _ hj).symm⟩
  · next hnone =>
    cases h
    refine ⟨fun id j hid => ?_, (hindex _ _ (Function.update_self _ _ _)).symm⟩
    have hne : id ≠ d.1 := by
      rintro rfl
      rw [hnone] at hid
      cases hid
    exact hindex id j ((Function.update_of_ne hne _ _).trans hid)

end NewStrings

namespace Netlist

variable {V N C : Type} [DecidableEq V] [DecidableEq N] [LT V] (W : Netlist V N C)

/-! ## The writer -/

def branches (rnode : V) : List V := (W.nodeRoutingResults rnode).branches

/-- The node carries the net. -/
def Carries (ni : N) (rnode : V) : Prop := (W.nodeRoutingResults rnode).netId = some ni

instance (ni : N) (rnode : V) : Decidable (W.Carries ni rnode) :=
  inferInstanceAs (Decidable (_ = _))

def sitePinNode (sp : PhysSitePin) : Option V := do
  let site ← W.strList[sp.site]?
  let pin ← W.strList[sp.pin]?
  W.device.getSitePinNode site pin

/-- `sinkPinStub`: the stub at every node. A stub that is not at a site pin is passed over; the
program stops at one that is not at a sink pin. -/
def sinkPinStub : List RouteBranch → Nat → (V → Option Nat) → Option (V → Option Nat)
  | [], _, m => some m
  | b :: stubs, i, m =>
    match b.label with
    | .sitePin sp => do
      let nodeId ← W.sitePinNode sp
      if W.nodeType nodeId = .pinfeedI then
        sinkPinStub stubs (i + 1) (Function.update m nodeId (some i))
      else none
    | _ => sinkPinStub stubs (i + 1) m

/-- The PIP of an edge. -/
def pip (rnode child : V) (strings : NewStrings) : Option (PhysPIP × NewStrings) := do
  let pip ← W.device.getTileTypePIP rnode child
  let tileId := W.device.beginTileId child
  let oldStrLen := W.strList.length
  let (tile, strings) := strings.getStringIndex oldStrLen (W.device.getTileName tileId)
  let (wire0, strings) :=
    strings.getStringIndex oldStrLen (W.device.getWireName tileId pip.wire0ItIdx)
  let (wire1, strings) :=
    strings.getStringIndex oldStrLen (W.device.getWireName tileId pip.wire1ItIdx)
  some ({ PhysPIP.init with tile := tile, wire0 := wire0, wire1 := wire1, forward := pip.forward },
    strings)

/-- Write the PIPs to the next nodes into the branches from index `i` on. -/
def writePips (rnode : V) : List V → Nat → List RouteBranch → NewStrings →
    Option (List RouteBranch × NewStrings)
  | [], _, branches, strings => some (branches, strings)
  | child :: nextRNodes, i, branches, strings => do
    let (pip, strings) ← W.pip rnode child strings
    writePips rnode nextRNodes (i + 1) (branches.modify i (RoseTree.setLabel (.pip pip))) strings

/-- The walk below the branch of a source site pin. -/
structure Walk where
  rb : RouteBranch
  strings : NewStrings
  routedPinNum : Nat
  numPIPs : Nat

/-- The branches below a node before the PIPs are written. A node that is no sink pin must have a
successor. A sink pin gets one branch more than it has successors, the last one, and the copy of its
stub goes there; without a stub of its own it would get the first one. -/
def initNode (stubs : List RouteBranch) (stubOf : V → Option Nat) (rnode : V) :
    Option (List RouteBranch) :=
  let nextRNodes := W.branches rnode
  if W.nodeType rnode = .pinfeedI then do
    let branches := RouteBranch.initBranches (nextRNodes.length + 1)
    let stub ← stubs[(stubOf rnode).getD 0]?
    some (branches.set (branches.length - 1) (copyBranch stub))
  else if nextRNodes.length ≠ 0 then
    some (RouteBranch.initBranches nextRNodes.length)
  else none

/-- Take a branch and its node from `graphQueue`. A branch is named by its address below the branch
of the source site pin. -/
def visitNode (ni : N) (stubs : List RouteBranch) (stubOf : V → Option Nat) (st : Walk)
    (item : List Nat × V) : Option (Walk × List (List Nat × V)) := do
  let (addr, rnode) := item
  let nextRNodes := W.branches rnode
  let rb ← st.rb.get? addr
  if W.Carries ni rnode ∧ rb.children.length = 0 then
    let branches ← W.initNode stubs stubOf rnode
    let (branches, strings) ← W.writePips rnode nextRNodes 0 branches st.strings
    some ({
        rb := st.rb.modify addr (RoseTree.setChildren branches)
        strings := strings
        routedPinNum := st.routedPinNum + if W.nodeType rnode = .pinfeedI then 1 else 0
        numPIPs := st.numPIPs + nextRNodes.length },
      nextRNodes.zipIdx.map fun (child, i) => (addr ++ [i], child))
  else none

/-- A branch among the sources, by its source and its address there. -/
def branchAt? (sources : List RouteBranch) (x : Nat × List Nat) : Option RouteBranch :=
  sources[x.1]?.bind (RoseTree.get? x.2)

/-- The branches a branch holds. -/
def behind (x : Nat × List Nat) (rb : RouteBranch) : List (Nat × List Nat) :=
  (List.range rb.children.length).map fun i => (x.1, x.2 ++ [i])

/-- The walk through the sources of a net. -/
structure NetWalk where
  sources : List RouteBranch
  strings : NewStrings
  routedPinNum : Nat
  numPIPs : Nat

/-- Take a branch from `sourceQueue`, named by its source and its address there. The branches behind
it are queued first; a site pin the net does not use is passed over. -/
def visitSource (fuel : Nat) (ni : N) (stubs : List RouteBranch) (stubOf : V → Option Nat)
    (st : NetWalk) (item : Nat × List Nat) : Option (NetWalk × List (Nat × List Nat)) := do
  let rb ← branchAt? st.sources item
  let next := behind item rb
  match rb.label with
  | .sitePin sp => do
    let sourceNode ← W.sitePinNode sp
    if W.Carries ni sourceNode then
      let walk ← Worklist.run (W.visitNode ni stubs stubOf) fuel
        ⟨rb, st.strings, st.routedPinNum, st.numPIPs⟩ [([], sourceNode)]
      some ({
          sources := st.sources.modify item.1 (RoseTree.modify item.2 fun _ => walk.rb)
          strings := walk.strings
          routedPinNum := walk.routedPinNum
          numPIPs := walk.numPIPs },
        next)
    else some (st, next)
  | _ => some (st, next)

/-- The body of the loop over the nets. The stubs are given up at the end; the program stops when
some pin was not reached. -/
def writeNet (fuel : Nat) (ni : N) (physNet : PhysNet) (strings : NewStrings) (numPIPs : Nat) :
    Option (PhysNet × NetWalk) := do
  let net := W.nets ni
  let stubs := physNet.stubs
  if (stubs.length : Int) = net.getConnectionSize + net.getDirectConnectionSize then
    let stubOf ← W.sinkPinStub stubs 0 fun _ => none
    let st ← Worklist.run (W.visitSource fuel ni stubs stubOf) fuel
      ⟨physNet.sources, strings, 0, numPIPs⟩
      ((List.range physNet.sources.length).map fun i => (i, []))
    if st.routedPinNum = stubs.length then
      some ({ physNet with sources := st.sources, stubs := [] }, st)
    else none
  else none

/-- The loop over the nets, each with its physical net. -/
def writeNets (fuel : Nat) :
    List (N × PhysNet) → NewStrings → Nat → Option (List PhysNet × NewStrings × Nat)
  | [], strings, numPIPs => some ([], strings, numPIPs)
  | (ni, physNet) :: nets, strings, numPIPs =>
    (W.writeNet fuel ni physNet strings numPIPs).bind fun r =>
      (writeNets fuel nets r.2.strings r.2.numPIPs).bind fun rest =>
        some (r.1 :: rest.1, rest.2)

/-- The physical nets and the string list that are written. -/
def write (fuel : Nat) (nets : List (N × PhysNet)) : Option (List PhysNet × List String) :=
  (W.writeNets fuel nets .empty 0).bind fun r => some (r.1, r.2.1.mergedStrList W.strList)

end Netlist

end Potter
