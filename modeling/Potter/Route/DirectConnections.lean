import Mathlib.Data.Fintype.EquivFin
import Potter.Db.Device
import Potter.Lib.VisitOrder

/-!
# Direct connections

A direct connection, of a carry chain for example, is routed on the device itself by a breadth-first
search of at most `10001` visits (`routeDirectConnections`). The search does not mark the nodes it has
met. When a node is met again its back pointer is overwritten, and that of the source is overwritten
when the source is met again.

A route that is returned is always a path (`isDirectPath_of_some`). The loop that reads the route off
the pointers does not end when they lead around a cycle. A pointer leads to where a node was met last
before the sink, and nodes are met in the order of the walks to them, so whether they do is a matter of
the walks of the device (`Entangled`). They do not if no cycle of nodes that are met before the sink
leads to it.
-/

namespace Potter

open Lib BackPointers

namespace Device

/-! ## The order in which nodes are met -/

section Order

variable {V : Type} (D : Device V) (source sink : V)

/-- `watchdog`. -/
def directWatchdog : Nat := 10000

/-- There is an edge. -/
def Edge (u v : V) : Prop := v ∈ D.getOutgoingNodes u

/-- Some walk from the source to the sink has at most `watchdog` walks before it, the shorter ones first
and those of one length in the order of the outgoing nodes. -/
def MetInTime : Prop := Met D.getOutgoingNodes source sink directWatchdog

/-- Of the nodes with `v` as an outgoing node, `u` is met last before the sink: the last walk before
all walks to the sink that ends in such a node ends in `u`. -/
def LastMet (v u : V) : Prop :=
  LastFrom D.getOutgoingNodes source (Ahead D.getOutgoingNodes source sink) v u

/-- From the sink one comes to a cycle, going to where a node was met last. -/
def Entangled : Prop :=
  ∃ u, Relation.ReflTransGen (D.LastMet source sink) sink u ∧
    Relation.TransGen (D.LastMet source sink) u u

/-- An edge from a node that is met before the sink. -/
def EarlyEdge (u v : V) : Prop :=
  (∃ addr, nodeAt D.getOutgoingNodes source addr = some u ∧
    Ahead D.getOutgoingNodes source sink addr) ∧ D.Edge u v

variable {D source sink}

theorem LastMet.earlyEdge {u v : V} (h : D.LastMet source sink v u) :
    D.EarlyEdge source sink u v := by
  obtain ⟨addr, hahead, hu, hv, -⟩ := h
  exact ⟨⟨addr, hu, hahead⟩, hv⟩

theorem not_entangled (hacyclic : ∀ u, Relation.ReflTransGen (D.EarlyEdge source sink) u sink →
    ¬Relation.TransGen (D.EarlyEdge source sink) u u) : ¬D.Entangled source sink := by
  rintro ⟨u, hreach, hcycle⟩
  refine hacyclic u ?_ ?_
  · exact Relation.reflTransGen_swap.1 (Relation.ReflTransGen.mono (fun _ _ h => h.earlyEdge) _ _ hreach)
  · exact Relation.transGen_swap.1 (Relation.TransGen.mono (fun _ _ h => h.earlyEdge) _ _ hcycle)

end Order

/-! ## The search -/

variable {V : Type} [DecidableEq V] (D : Device V)

/-- The route of a direct connection, and whether one was found. -/
structure DirectRoute (V : Type) where
  rnodes : List V
  success : Bool
deriving DecidableEq

/-- One round of the loop. The sink ends it; the children of any other node are queued and point to
it. -/
def visitDirect (sink : V) (prevs : V → Option V) (curr : V) :
    Visit (V → Option V) V (V → Option V) :=
  if curr = sink then .stop prevs
  else .next (pointAll prevs curr (D.getOutgoingNodes curr)) (D.getOutgoingNodes curr)

/-- The pointers when the sink is taken from the queue. The loop is left after the visit with which
`watchdog` falls below zero. -/
def searchDirect (source sink : V) : Option (V → Option V) :=
  (run (D.visitDirect sink) (directWatchdog + 1) (fun _ => none) [source]).join

/-- The body of the loop over the direct connections. There is no result if the pointers have not led
to an end after `fuel` nodes. -/
def routeDirectConnection (fuel : Nat) (source sink : V) : Option (DirectRoute V) :=
  if sink ∈ D.getOutgoingNodes source then some ⟨[sink, source], true⟩
  else
    match D.searchDirect source sink with
    | some prevs => (trail prevs fuel sink).map (⟨·, true⟩)
    | none => some ⟨[], false⟩

/-- The loop; `failCnt` counts the connections without a route. -/
def routeDirectConnections (fuel : Nat) (conns : List (V × V)) : Option (List (DirectRoute V) × Nat) :=
  (conns.mapM fun c => D.routeDirectConnection fuel c.1 c.2).map fun routes =>
    (routes, routes.countP fun r => !r.success)

/-! ## The routes -/

/-- A path of the device from the sink back to the source. -/
structure IsDirectPath (source sink : V) (p : List V) : Prop where
  head : p.head? = some sink
  last : p.getLast? = some source
  nodup : p.Nodup
  chain : p.IsChain fun v u => v ∈ D.getOutgoingNodes u

/-- Failure with no nodes, or a path. -/
def DirectOutcome (source sink : V) (out : DirectRoute V) : Prop :=
  out.success = false ∧ out.rnodes = [] ∨ out.success = true ∧ D.IsDirectPath source sink out.rnodes

variable {D} {source sink : V} {prevs : V → Option V}

/-- When the sink is met, the pointers run against the edges. -/
theorem pointed_of_searchDirect (h : D.searchDirect source sink = some prevs) :
    ∃ q, Pointed D.Edge source prevs (sink :: q) := by
  have hrun : run (D.visitDirect sink) (directWatchdog + 1) (fun _ => none) [source] =
      some (some prevs) := by
    unfold searchDirect at h
    rwa [Option.join_eq_some_iff] at h
  have hvisit : ∀ {prevs v prevs' queued}, D.visitDirect sink prevs v = .next prevs' queued →
      prevs' = pointAll prevs v queued ∧ ∀ c ∈ queued, D.Edge v c := by
    intro prevs v prevs' queued h
    unfold visitDirect at h
    split at h
    · cases h
    · cases h
      exact ⟨rfl, fun _ hc => hc⟩
  obtain ⟨prevs', curr, q, hpointed, hstop⟩ := pointed_of_run hvisit hrun
  unfold visitDirect at hstop
  split at hstop
  · rename_i hcurr
    cases hstop
    subst hcurr
    exact ⟨q, hpointed⟩
  · cases hstop

/-- **A route that is returned is a path.** -/
theorem isDirectPath_of_some (hne : source ≠ sink) {fuel : Nat} {out : DirectRoute V}
    (h : D.routeDirectConnection fuel source sink = some out) : D.DirectOutcome source sink out := by
  unfold routeDirectConnection at h
  split at h
  · rename_i hedge
    cases h
    refine .inr ⟨rfl, rfl, rfl, ?_, ?_⟩
    · exact List.nodup_cons.2 ⟨fun e => hne (List.mem_singleton.1 e).symm, List.nodup_singleton _⟩
    · exact List.isChain_pair.2 hedge
  · split at h
    · rename_i prevs hsearch
      obtain ⟨p, hp, rfl⟩ := Option.map_eq_some_iff.1 h
      obtain ⟨q, hpointed⟩ := pointed_of_searchDirect hsearch
      obtain ⟨hhead, hlast, hnodup, hchain, -⟩ := hpointed.path List.mem_cons_self hp
      exact .inr ⟨rfl, hhead, hlast, hnodup, hchain⟩
    · cases h
      exact .inl ⟨rfl, rfl⟩

/-! ## Whether the loop ends -/

/-- The sink is found if it is met in time, and then the pointers lead to where nodes were met last. -/
theorem searchDirect_spec (D : Device V) (source sink : V) :
    (∃ prevs, D.searchDirect source sink = some prevs ∧ D.MetInTime source sink ∧
        Link prevs = D.LastMet source sink) ∨
      D.searchDirect source sink = none ∧ ¬D.MetInTime source sink := by
  have hgoal : ∀ prevs, D.visitDirect sink prevs sink = .stop prevs := fun _ => if_pos rfl
  have hother : ∀ prevs {v}, v ≠ sink → D.visitDirect sink prevs v =
      .next (pointAll prevs v (D.getOutgoingNodes v)) (D.getOutgoingNodes v) :=
    fun _ _ hne => if_neg hne
  refine (run_spec hgoal hother directWatchdog).imp_left ?_
  rintro ⟨prevs, hrun, hmet, hpoints⟩
  refine ⟨prevs, ?_, hmet, ?_⟩
  · rw [searchDirect, hrun]
    rfl
  · funext v u
    exact propext (hpoints v u)

/-- The loop over the pointers ends exactly if they do not lead around a cycle. -/
theorem exists_routeDirectConnection_iff [Finite V] :
    (∃ fuel out, D.routeDirectConnection fuel source sink = some out) ↔
      sink ∈ D.getOutgoingNodes source ∨ ¬D.MetInTime source sink ∨ ¬D.Entangled source sink := by
  unfold routeDirectConnection
  by_cases hedge : sink ∈ D.getOutgoingNodes source
  · simp only [if_pos hedge]
    exact iff_of_true ⟨0, _, rfl⟩ (.inl hedge)
  · rw [or_iff_right hedge]
    simp only [if_neg hedge]
    rcases D.searchDirect_spec source sink with
      ⟨prevs, hsearch, hmet, hlink⟩ | ⟨hsearch, hmet⟩
    · simp only [hsearch, hmet, not_true_eq_false, false_or]
      have hloop : Looping prevs sink ↔ D.Entangled source sink := by
        rw [Looping, hlink, Entangled]
      rw [← hloop]
      constructor
      · rintro ⟨fuel, out, hout⟩ hlooping
        rw [trail_eq_none hlooping] at hout
        cases hout
      · intro hlooping
        obtain ⟨fuel, p, hp⟩ := exists_trail hlooping
        exact ⟨fuel, ⟨p, true⟩, by rw [hp, Option.map_some]⟩
    · simp only [hsearch]
      exact iff_of_true ⟨0, _, rfl⟩ (.inl hmet)

/-- **When a direct connection is routed or given up, and the loops return**: if the sink is next to
the source, if it is not met in time, or if from the sink one does not come to a cycle going to where
nodes were met last before it; so if no cycle of nodes met before the sink leads to it. -/
theorem routeDirectConnection_iff [Finite V] (hne : source ≠ sink) :
    ((∃ fuel out, D.routeDirectConnection fuel source sink = some out ∧
        D.DirectOutcome source sink out) ↔
      sink ∈ D.getOutgoingNodes source ∨ ¬D.MetInTime source sink ∨ ¬D.Entangled source sink) ∧
    ((∀ u, Relation.ReflTransGen (D.EarlyEdge source sink) u sink →
        ¬Relation.TransGen (D.EarlyEdge source sink) u u) → ¬D.Entangled source sink) := by
  refine ⟨?_, not_entangled⟩
  rw [← exists_routeDirectConnection_iff]
  constructor
  · rintro ⟨fuel, out, hout, -⟩
    exact ⟨fuel, out, hout⟩
  · rintro ⟨fuel, out, hout⟩
    exact ⟨fuel, out, hout, isDirectPath_of_some hne hout⟩

/-- A tile whose wires are one node each. -/
def oneTile (n : Nat) (hn : n ≤ 2 ^ 32) (pips : List RawPIP)
    (hlt : ∀ p ∈ pips, p.wire0 < 2 ^ 32 ∧ p.wire1 < 2 ^ 32) (h : (TilePIPs.read pips).isSome) :
    Device (Fin n) where
  siteNameToIdx _ := none
  sites _ := ⟨0, 0, 0, 0⟩
  siteTypePinNameToIdx _ _ := none
  tileTypeSitePinToWireIdx _ _ _ := 0
  tileTypes t :=
    if t = 0 then .ofPips id pips hlt h
    else .noPips id
  stringList _ := ""
  tileToNameIdx t := t
  tileToType _ := 0
  tileWireToNode t i := if h : t = 0 ∧ i < n then some ⟨i, h.2⟩ else none
  nodeToWires v := [⟨0, 0, v⟩]
  beginTileId _ := 0
  nullTile_pips := fun _ _ => rfl
  wire_type := by
    intro v w hw
    rw [List.mem_singleton.1 hw]
  wire_lt := by
    intro v w hw
    rw [List.mem_singleton.1 hw]
    exact Nat.lt_of_lt_of_le v.2 hn
  begin_eq := fun _ => rfl
  wire_of_node := by
    intro t i v h
    split at h
    · next hlt =>
      cases h
      exact ⟨_, List.mem_singleton_self _, hlt.1.symm, rfl⟩
    · cases h
  node_of_wire := by
    intro v w hw
    rw [List.mem_singleton.1 hw, dif_pos ⟨rfl, v.2⟩]
    rfl

/-! A cycle need not be followed: wires 1 and 3 drive each other, and the sink, wire 2, is met before
wire 3 leads back to wire 1. -/

def detourTile : Device (Fin 4) :=
  oneTile 4 (by decide) [⟨0, 1, true⟩, ⟨1, 2, true⟩, ⟨1, 3, false⟩] (by decide) (by decide)

/-- Only wires 0 and 1 are met before the sink. -/
theorem lt_two_of_detourTile {addr : List Nat} {u : Fin 4}
    (hu : nodeAt detourTile.getOutgoingNodes 0 addr = some u)
    (hahead : Ahead detourTile.getOutgoingNodes 0 2 addr) : addr ∈ [[], [0]] ∧ u < 2 := by
  have hlt : Earlier addr [0, 0] := hahead [0, 0] (by decide)
  rcases List.shortlex_def.1 hlt with hlength | ⟨hlength, hlex⟩
  · match addr, hlength with
    | [], _ =>
      cases hu
      decide
    | [0], _ =>
      cases hu
      decide
    | [i + 1], _ => cases hu
  · match addr, hlength, hlex with
    | [i, j], _, hlex =>
      cases hlex with
      | rel h => exact absurd h (Nat.not_lt_zero i)
      | cons h =>
        cases h with
        | rel h => exact absurd h (Nat.not_lt_zero j)
        | cons h => cases h

/-- The connection from wire 0 to wire 2: the wire is found, and no cycle is followed. -/
theorem routeDirectConnection_iff_detourTile :
    (2 ∉ detourTile.getOutgoingNodes 0 ∧ Relation.TransGen detourTile.Edge 1 1) ∧
      (∃ fuel out, detourTile.routeDirectConnection fuel 0 2 = some out ∧
        detourTile.DirectOutcome 0 2 out) ∧ ¬detourTile.Entangled 0 2 := by
  obtain ⟨hiff, hsufficient⟩ := @routeDirectConnection_iff (Fin 4) _ detourTile 0 2 _
    (by decide)
  have hedge : ∀ u v : Fin 4, u < 2 → v ∈ detourTile.getOutgoingNodes u → u < v := by decide
  have hlt : ∀ {u v : Fin 4}, Relation.TransGen (detourTile.EarlyEdge 0 2) u v → u < v := by
    intro u v h
    have hearly : ∀ {u v}, detourTile.EarlyEdge 0 2 u v → u < v := by
      rintro u v ⟨⟨addr, hu, hahead⟩, hv⟩
      exact hedge u v (lt_two_of_detourTile hu hahead).2 hv
    induction h with
    | single h => exact hearly h
    | tail _ h ih => exact ih.trans (hearly h)
  have hnot : ¬detourTile.Entangled 0 2 := hsufficient fun u _ hcycle => lt_irrefl u (hlt hcycle)
  refine ⟨⟨by decide, ?_⟩, hiff.2 (.inr (.inr hnot)), hnot⟩
  have h₁₃ : detourTile.Edge 1 3 := by
    show (3 : Fin 4) ∈ detourTile.getOutgoingNodes 1
    decide
  have h₃₁ : detourTile.Edge 3 1 := by
    show (1 : Fin 4) ∈ detourTile.getOutgoingNodes 3
    decide
  exact .tail (.single h₁₃) h₃₁

/-- The search never returns when the pointers lead around a cycle. -/
theorem routeDirectConnection_eq_none (hedge : sink ∉ D.getOutgoingNodes source)
    (hsearch : D.searchDirect source sink = some prevs) (hloop : Looping prevs sink) (fuel : Nat) :
    D.routeDirectConnection fuel source sink = none := by
  unfold routeDirectConnection
  rw [if_neg hedge, hsearch]
  dsimp only
  rw [trail_eq_none hloop, Option.map_none]

/-! A tile in which wires 0 and 1 are joined by a PIP that can be used both ways, and wire 1 drives
wire 2. When the search takes wire 1 from the queue, the source, wire 0, is made to point to it. -/

def bidirectionalTile : Device (Fin 3) :=
  oneTile 3 (by decide) [⟨0, 1, false⟩, ⟨1, 2, true⟩] (by decide) (by decide)

/-- **The connection from wire 0 to wire 2 is never done with.** -/
theorem routeDirectConnection_diverges :
    ¬∃ fuel out, bidirectionalTile.routeDirectConnection fuel 0 2 = some out := by
  obtain ⟨prevs, hsearch, h₂, h₁, h₀⟩ : ∃ prevs, bidirectionalTile.searchDirect 0 2 = some prevs ∧
      prevs 2 = some 1 ∧ prevs 1 = some 0 ∧ prevs 0 = some 1 :=
    ⟨_, rfl, by decide +kernel, by decide +kernel, by decide +kernel⟩
  have hloop : Looping prevs 2 := ⟨1, .single h₂, .tail (.single h₁) h₀⟩
  rintro ⟨fuel, out, hout⟩
  rw [routeDirectConnection_eq_none (by decide) hsearch hloop] at hout
  cases hout

end Device

end Potter
