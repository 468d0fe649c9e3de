import Potter.Db.Connection
import Potter.Db.RouteNode

/-!
# The design

The routing graph and the netlist a router works on, with what the netlist reader guarantees: every
connection is listed once, by the net it names, and the connections of a net start at one node (the
reader stops the program otherwise).

`updateIndirectConnectionBBox` gives every connection the box its search stays in.
-/

namespace Potter

structure Database (K : Type) where
  numNodes : Nat
  numNets : Nat
  numConns : Nat
  routeNodes : Fin numNodes → RouteNode (Fin numNodes) K
  indirectConnections : Fin numConns → Connection (Fin numNodes) (Fin numNets)
  nets : Fin numNets → Net (Fin numConns)
  layout : BoxT
  deviceXMax : Int
  deviceYMax : Int
  mem_indirectConns : ∀ {n c}, c ∈ (nets n).indirectConns ↔ (indirectConnections c).netId = n
  nodup_indirectConns : ∀ n, (nets n).indirectConns.Nodup
  source_eq : ∀ {c d}, (indirectConnections c).netId = (indirectConnections d).netId →
    (indirectConnections c).source = (indirectConnections d).source

namespace Database

variable {K : Type}

abbrev NodeId (D : Database K) : Type := Fin D.numNodes

abbrev NetId (D : Database K) : Type := Fin D.numNets

abbrev ConnId (D : Database K) : Type := Fin D.numConns

variable (D : Database K)

/-- The net of a connection. -/
def netOf (c : D.ConnId) : D.NetId := (D.indirectConnections c).netId

def source (c : D.ConnId) : D.NodeId := (D.indirectConnections c).source

def sink (c : D.ConnId) : D.NodeId := (D.indirectConnections c).sink

def bbox (c : D.ConnId) : BoxT := (D.indirectConnections c).bbox

/-- The children of a node in the order a search looks at them. -/
def children (rnode : D.NodeId) : List D.NodeId := (D.routeNodes rnode).children.getChildren

theorem mem_conns_netOf (c : D.ConnId) : c ∈ (D.nets (D.netOf c)).indirectConns :=
  D.mem_indirectConns.2 rfl

theorem netOf_eq {n : D.NetId} {c : D.ConnId} (h : c ∈ (D.nets n).indirectConns) :
    D.netOf c = n :=
  D.mem_indirectConns.1 h

/-- The node ends strictly inside the box of the connection. -/
def InBox (c : D.ConnId) (rnode : D.NodeId) : Prop :=
  (D.bbox c).Inside (D.routeNodes rnode).endTileXCoordinate (D.routeNodes rnode).endTileYCoordinate

instance (c : D.ConnId) (rnode : D.NodeId) : Decidable (D.InBox c rnode) :=
  inferInstanceAs (Decidable (BoxT.Inside _ _ _))

/-- A route of a connection: a path of the graph from its sink back to its source that does not
leave the box in between. -/
structure IsPath (c : D.ConnId) (p : List D.NodeId) : Prop where
  head : p.head? = some (D.sink c)
  last : p.getLast? = some (D.source c)
  nodup : p.Nodup
  chain : p.IsChain fun v u => v ∈ D.children u
  inBox : ∀ v ∈ p, v = D.sink c ∨ v = D.source c ∨ D.InBox c v

variable {D}

theorem IsPath.ne_nil {c : D.ConnId} {p : List D.NodeId} (h : D.IsPath c p) : p ≠ [] := by
  rintro rfl
  cases h.head

theorem IsPath.sink_mem {c : D.ConnId} {p : List D.NodeId} (h : D.IsPath c p) : D.sink c ∈ p :=
  List.mem_of_mem_head? h.head

end Database

/-! ## The search boxes -/

section BBox

variable {V N C : Type}

/-- The box of a connection, grown by the margins and cut to the layout. A coordinate below zero
becomes `-1`, so that a node in column or row zero is still strictly inside. The differences and sums
are those of `int`, and are compared with the layout only after they were computed. -/
def Connection.grownBBox (conn : Connection V N) (layout : BoxT) (xMargin yMargin : Int) : BoxT :=
  let xMin := toInt32 (conn.xmin - xMargin)
  let xMin := if xMin < 0 then -1 else xMin
  let xMax := toInt32 (conn.xmax + xMargin)
  let xMax := if xMax > layout.hx then layout.hx else xMax
  let yMin := toInt32 (conn.ymin - yMargin)
  let yMin := if yMin < 0 then -1 else yMin
  let yMax := toInt32 (conn.ymax + yMargin)
  let yMax := if yMax > layout.hy then layout.hy else yMax
  BoxT.set xMin yMin xMax yMax

def Connection.updateBBox (conn : Connection V N) (bbox : BoxT) : Connection V N :=
  { conn with bbox := bbox, hpwl := bbox.hp }

/-- Grow the extent of a net to hold a box. -/
def Net.updateBB (net : Net C) (b : BoxT) : Net C :=
  { net with
    xmin := if b.lx < net.xmin then b.lx else net.xmin
    xmax := if b.hx > net.xmax then b.hx else net.xmax
    ymin := if b.ly < net.ymin then b.ly else net.ymin
    ymax := if b.hy > net.ymax then b.hy else net.ymax }

/-- The extent of a net: its center and the boxes of its connections. `doubleHpwl` is a `short`. -/
def Net.coverBBoxes (net : Net C) (boxes : List BoxT) : Net C :=
  let net := { net with
    xmin := net.xCenter, xmax := net.xCenter, ymin := net.yCenter, ymax := net.yCenter }
  let net := boxes.foldl Net.updateBB net
  { net with
    doubleHpwl :=
      toInt16 (max 0 (2 * (|net.ymax - net.ymin + 1| + |net.xmax - net.xmin + 1|))) }

theorem Net.foldl_updateBB_indirectConns (net : Net C) (boxes : List BoxT) :
    (boxes.foldl Net.updateBB net).indirectConns = net.indirectConns := by
  induction boxes generalizing net with
  | nil => rfl
  | cons b boxes ih => exact (ih (net.updateBB b)).trans rfl

/-- A net without connections keeps its extent. -/
def Net.updateExtent (net : Net C) (box : C → BoxT) : Net C :=
  if net.getConnectionSize = 0 then net else net.coverBBoxes (net.indirectConns.map box)

@[simp] theorem Net.updateExtent_indirectConns (net : Net C) (box : C → BoxT) :
    (net.updateExtent box).indirectConns = net.indirectConns := by
  unfold Net.updateExtent
  split
  · rfl
  · exact Net.foldl_updateBB_indirectConns _ _

end BBox

/-- Give every connection its search box and every net with connections its extent. -/
def Database.updateIndirectConnectionBBox {K : Type} (D : Database K) (xMargin yMargin : Int) :
    Database K :=
  let box (c : D.ConnId) := (D.indirectConnections c).grownBBox D.layout xMargin yMargin
  { D with
    indirectConnections := fun c => (D.indirectConnections c).updateBBox (box c)
    nets := fun n => (D.nets n).updateExtent box
    mem_indirectConns := by
      intro n c
      rw [Net.updateExtent_indirectConns]
      exact D.mem_indirectConns
    nodup_indirectConns := by
      intro n
      rw [Net.updateExtent_indirectConns]
      exact D.nodup_indirectConns n
    source_eq := fun h => D.source_eq h }

end Potter
