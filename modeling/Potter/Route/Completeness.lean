import Potter.Lib.Exploration
import Potter.Route.Accounting

/-!
# Soundness and completeness of the search for a connection

`routeOneConnection` succeeds exactly if the sink can be reached from the source over nodes that pass
its filter, whatever the costs and the order among equal costs. It relies on a table in which no mark
carries the id of the connection, on ids that are not the value `-1` of an empty mark, and on the
assertions that its costs satisfy.
-/

namespace Potter

open Lib Relation
open BestFirst (Problem Verdict Frontier Mark)

namespace AStarRoute

variable {K : Type} [Arith K] (R : AStarRoute K)

/-- The nodes a search for `c` may pass through. -/
def PassesFilter (st : RouterState R.database) (c : R.database.ConnId) (v : R.database.NodeId) :
    Prop :=
  R.database.InBox c v ∧
    match (R.database.routeNodes v).type with
    | .wire => R.graphIsAccessible v c = true
    | .pinbounce => R.graphIsAccessible v c = true
    | .pinfeedI => (st.net (R.database.netOf c)).countConnectionsOfUser v ≠ 0 ∧
        (R.database.routeNodes v).isNodePinBounce = true
    | .lagunaI => False
    | .superLongLine => True
    | .pinfeedO => True

/-- There is a path from the source of `c` to its sink, over nodes that pass the filter. -/
def SinkReachable (st : RouterState R.database) (c : R.database.ConnId) : Prop :=
  ∃ u, ReflTransGen (fun a b => b ∈ R.database.children a ∧ R.PassesFilter st c b)
    (R.database.source c) u ∧ R.database.sink c ∈ R.database.children u

/-- The ends of `c` differ, and the thread's table holds no mark that the search for `c` takes for its
own. -/
def Unmarked (st : RouterState R.database) (tid : Nat) (c : R.database.ConnId) : Prop :=
  R.connectionUniqueId st c ≠ -1 ∧ R.database.source c ≠ R.database.sink c ∧
    ∀ r, (st.info tid r).isVisited ≠ R.connectionUniqueId st c ∧
      (st.info tid r).isTarget ≠ R.connectionUniqueId st c

instance (st : RouterState R.database) (tid : Nat) (c : R.database.ConnId) :
    Decidable (R.Unmarked st tid c) :=
  inferInstanceAs (Decidable (_ ∧ _ ∧ _))

/-- The children that the search from `st` looks at: neither visited nor its sink. -/
def examined (ρ : Reads R.database.NodeId K) (st : RouterState R.database) (c : R.database.ConnId)
    (tid : Nat) (sync : Bool) : List R.database.NodeId :=
  BestFirst.examined R.queue (R.problem ρ st c tid sync) R.database.children
    (R.database.numNodes + 1) (BestFirst.start R.queue (R.problem ρ st c tid sync) (st.marks tid))

/-- The cost of a child that is not the target, as the search asks for it. -/
def nodeCost (ρ : Reads R.database.NodeId K) (st : RouterState R.database)
    (c : R.database.ConnId) (tid : Nat) (sync : Bool) (child : R.database.NodeId) : Option K :=
  let net := st.net (R.database.netOf c)
  let countSourceUsesOrigin := net.countConnectionsOfUser child
  let countSourceUses :=
    if sync then
      countSourceUsesOrigin - net.getPreDecrementUser child + net.getPreIncrementUser child
    else countSourceUsesOrigin
  R.getNodeCost ρ st child c
    (if sync then (st.info tid child).getOccChange st.ctl.currentBatchStamp else 0)
    countSourceUses countSourceUsesOrigin ((1 : Int) + R.sharingWeight * countSourceUses) false

section Verdicts

variable {R} {ρ : Reads R.database.NodeId K} {st : RouterState R.database}
  {c : R.database.ConnId} {tid : Nat} {sync : Bool} {v : R.database.NodeId}

/-- A child is evaluated, and pushed if its cost is not negative. -/
theorem evaluateChild_cases (ρ : Reads R.database.NodeId K) (st : RouterState R.database)
    (c : R.database.ConnId) (tid : Nat) (sync : Bool) (v : R.database.NodeId) :
    (∃ costs, R.evaluateChild ρ st c tid sync v false = .visit costs) ∨
    (R.evaluateChild ρ st c tid sync v false = .halt ∧
      ¬∃ cost, R.nodeCost ρ st c tid sync v = some cost ∧ ((0 : Int) : K) ≤ cost) := by
  unfold evaluateChild
  dsimp only
  split
  · rename_i hnone
    refine .inr ⟨rfl, ?_⟩
    rintro ⟨cost, hcost, -⟩
    cases hnone.symm.trans hcost
  · rename_i cost hsome
    split
    · exact .inl ⟨_, rfl⟩
    · rename_i hneg
      refine .inr ⟨rfl, ?_⟩
      rintro ⟨cost', hcost, hpos⟩
      cases hsome.symm.trans hcost
      exact hneg hpos

/-- The verdict on a child that is not the target. -/
theorem childVerdict_cases (ρ : Reads R.database.NodeId K) (st : RouterState R.database)
    (c : R.database.ConnId) (tid : Nat) (sync : Bool) (v : R.database.NodeId) :
    (R.childVerdict ρ st c tid sync v false = .skip ∧ ¬R.PassesFilter st c v) ∨
    (R.childVerdict ρ st c tid sync v false = .halt ∧ R.database.InBox c v ∧
      ((R.database.routeNodes v).type = .superLongLine ∨ (R.database.routeNodes v).type = .pinfeedO)) ∨
    (R.childVerdict ρ st c tid sync v false = R.evaluateChild ρ st c tid sync v false ∧
      R.PassesFilter st c v) := by
  unfold PassesFilter
  by_cases hbox : R.database.InBox c v
  · have hverdict : ∀ t, R.childVerdict ρ st c tid sync v t =
        match (R.database.routeNodes v).type with
        | .wire =>
          if ¬ R.graphIsAccessible v c then .skip else R.evaluateChild ρ st c tid sync v t
        | .pinbounce =>
          if t then .halt
          else if ¬ R.isAccessiblePinbounce v c then .skip
          else R.evaluateChild ρ st c tid sync v t
        | .pinfeedI =>
          if ¬ R.isAccessiblePinfeedI (st.net (R.database.netOf c)) v t then .skip
          else R.evaluateChild ρ st c tid sync v t
        | .lagunaI => .skip
        | .superLongLine => .halt
        | .pinfeedO => .halt := fun t => if_neg (not_not.2 (decide_eq_true hbox))
    rw [hverdict]
    cases htype : (R.database.routeNodes v).type with
    | wire =>
      by_cases haccess : R.graphIsAccessible v c = true
      · exact .inr (.inr ⟨if_neg (not_not.2 haccess), hbox, haccess⟩)
      · exact .inl ⟨if_pos haccess, fun h => haccess h.2⟩
    | pinbounce =>
      by_cases haccess : R.graphIsAccessible v c = true
      · exact .inr (.inr ⟨if_neg (not_not.2 haccess), hbox, haccess⟩)
      · exact .inl ⟨if_pos haccess, fun h => haccess h.2⟩
    | pinfeedI =>
      have haccess : R.isAccessiblePinfeedI (st.net (R.database.netOf c)) v false = true ↔
          (st.net (R.database.netOf c)).countConnectionsOfUser v ≠ 0 ∧
            (R.database.routeNodes v).isNodePinBounce = true := by
        unfold isAccessiblePinfeedI
        by_cases huse : (st.net (R.database.netOf c)).countConnectionsOfUser v = 0 <;>
          by_cases hbounce : (R.database.routeNodes v).isNodePinBounce = true <;>
          simp [huse, hbounce]
      by_cases hpin : R.isAccessiblePinfeedI (st.net (R.database.netOf c)) v false = true
      · exact .inr (.inr ⟨if_neg (not_not.2 hpin), hbox, haccess.1 hpin⟩)
      · exact .inl ⟨if_pos hpin, fun h => hpin (haccess.2 h.2)⟩
    | lagunaI => exact .inl ⟨rfl, fun h => h.2⟩
    | superLongLine => exact .inr (.inl ⟨rfl, hbox, .inl rfl⟩)
    | pinfeedO => exact .inr (.inl ⟨rfl, hbox, .inr rfl⟩)
  · refine .inl ⟨if_pos ?_, fun h => hbox h.1⟩
    rw [isAccessible, decide_eq_true_iff]
    exact hbox

end Verdicts

/-! ## The result -/

section Result

variable {R} {ρ : Reads R.database.NodeId K} {st st' : RouterState R.database}
  {c : R.database.ConnId} {tid : Nat} {sync : Bool}

/-- A node that is pushed passes the filter. -/
theorem passesFilter_of_visit {v : R.database.NodeId} {costs : K → K × K}
    (h : R.childVerdict ρ st c tid sync v false = .visit costs) : R.PassesFilter st c v := by
  rcases childVerdict_cases ρ st c tid sync v with ⟨hskip, -⟩ | ⟨hhalt, -⟩ | ⟨-, hpass⟩
  · rw [hskip] at h
    cases h
  · rw [hhalt] at h
    cases h
  · exact hpass

/-- A node that passes the filter is not skipped. -/
theorem ne_skip_of_passesFilter {v : R.database.NodeId} (h : R.PassesFilter st c v) :
    R.childVerdict ρ st c tid sync v false ≠ .skip := by
  rcases childVerdict_cases ρ st c tid sync v with ⟨-, hnot⟩ | ⟨hhalt, -⟩ | ⟨heval, -⟩
  · exact absurd h hnot
  · rw [hhalt]
    nofun
  · rw [heval]
    rcases evaluateChild_cases ρ st c tid sync v with ⟨costs, hvisit⟩ | ⟨hhalt, -⟩
    · rw [hvisit]
      nofun
    · rw [hhalt]
      nofun

/-- The search stops the program only at a child of a wrong type or with a negative cost. -/
theorem not_halt {v : R.database.NodeId}
    (htype : R.database.InBox c v →
      (R.database.routeNodes v).type ≠ .superLongLine ∧ (R.database.routeNodes v).type ≠ .pinfeedO)
    (hcost : R.PassesFilter st c v →
      ∃ cost, R.nodeCost ρ st c tid sync v = some cost ∧ ((0 : Int) : K) ≤ cost) :
    R.childVerdict ρ st c tid sync v false ≠ .halt := by
  rcases childVerdict_cases ρ st c tid sync v with ⟨hskip, -⟩ | ⟨-, hbox, hwrong⟩ | ⟨heval, hpass⟩
  · rw [hskip]
    nofun
  · exact (hwrong.elim (htype hbox).1 (htype hbox).2).elim
  · rw [heval]
    rcases evaluateChild_cases ρ st c tid sync v with ⟨costs, hvisit⟩ | ⟨-, hnot⟩
    · rw [hvisit]
      nofun
    · exact absurd (hcost hpass) hnot

/-- The route of a connection that was ripped up before is the path that its search found. -/
theorem exists_found (h : R.routeOneConnection ρ c tid sync st = some (true, st'))
    (hnil : (st.conn c).rnodes = []) :
    ∃ marks k, R.search ρ (R.beginRoute c st) c tid sync = .found marks k ∧
      BestFirst.trace marks (R.database.source c) 9999 (R.database.sink c) =
        some (st'.conn c).rnodes := by
  rcases routeOneConnection_cases h with ⟨hne, -⟩ | ⟨-, marks, k, path, hsearch, htrace, rfl⟩
  · cases hne
  · obtain ⟨s, hs, hrnodes, -⟩ := commitRoute_conn ρ c sync k
      (appendPath c path ((R.beginRoute c st).withMarks tid marks))
    refine ⟨marks, k, hsearch, ?_⟩
    rw [htrace, hs, Function.update_self, hrnodes]
    simp [appendPath, beginRoute, ConnState.setRoutedThisIter, hnil]

/-- A search from a table without marks of its id has met its sink below a node it has pushed. -/
theorem metBelow_of_found (hid : R.connectionUniqueId st c ≠ -1)
    (hne : R.database.source c ≠ R.database.sink c)
    (hfresh : ∀ r, (st.info tid r).isVisited ≠ R.connectionUniqueId st c ∧
      (st.info tid r).isTarget ≠ R.connectionUniqueId st c)
    {marks : R.database.NodeId → Mark R.database.NodeId K} {k : Nat}
    (h : R.search ρ (R.beginRoute c st) c tid sync = .found marks k) :
    BestFirst.MetBelow R.database.children (R.problem ρ (R.beginRoute c st) c tid sync) marks := by
  have hstart : BestFirst.Exploring R.database.children (R.problem ρ (R.beginRoute c st) c tid sync) ∅
      (BestFirst.start R.queue (R.problem ρ (R.beginRoute c st) c tid sync)
        ((R.beginRoute c st).marks tid)) [R.database.source c] :=
    BestFirst.start_exploring hid hne hfresh
  obtain ⟨-, hmet, -⟩ :=
    BestFirst.loop_exploring (Q := R.queue) hid (R.database.numNodes + 1) 0 hstart
  rw [search, searchLoop_eq] at h
  exact hmet marks k h

/-- **A search whose sink can be reached does not fail.** -/
theorem not_sinkReachable_of_fails (hmarks : R.Unmarked st tid c)
    (h : R.routeOneConnection ρ c tid sync st = some (false, st')) : ¬R.SinkReachable st c := by
  obtain ⟨hid, hne, hfresh⟩ := hmarks
  have hstart : BestFirst.Exploring R.database.children (R.problem ρ (R.beginRoute c st) c tid sync) ∅
      (BestFirst.start R.queue (R.problem ρ (R.beginRoute c st) c tid sync)
        ((R.beginRoute c st).marks tid)) [R.database.source c] :=
    BestFirst.start_exploring hid hne hfresh
  obtain ⟨hexhausted, -, -⟩ :=
    BestFirst.loop_exploring (Q := R.queue) hid (R.database.numNodes + 1) 0 hstart
  rw [← R.searchLoop_eq] at hexhausted
  rcases routeOneConnection_cases h with ⟨-, f, hsearch, -⟩ | ⟨hsuccess, -⟩
  · obtain ⟨l, hl⟩ := hexhausted f hsearch
    rintro ⟨u, hu, hsink⟩
    exact absurd hsink (hl.unreachable (search_exhausted hsearch) hne
      (fun v hv => ne_skip_of_passesFilter hv) hu)
  · cases hsuccess

/-- **The search is sound and complete.** -/
theorem routeOneConnection_iff (hid : R.connectionUniqueId st c ≠ -1)
    (hne : R.database.source c ≠ R.database.sink c) (hnil : (st.conn c).rnodes = [])
    (hfresh : ∀ r, (st.info tid r).isVisited ≠ R.connectionUniqueId st c ∧
      (st.info tid r).isTarget ≠ R.connectionUniqueId st c)
    (htypes : ∀ v ∈ R.examined ρ (R.beginRoute c st) c tid sync, R.database.InBox c v →
      (R.database.routeNodes v).type ≠ .superLongLine ∧ (R.database.routeNodes v).type ≠ .pinfeedO)
    (hcosts : ∀ v ∈ R.examined ρ (R.beginRoute c st) c tid sync, R.PassesFilter st c v →
      ∃ cost, R.nodeCost ρ (R.beginRoute c st) c tid sync v = some cost ∧ ((0 : Int) : K) ≤ cost)
    (hdog : ∀ marks k fuel p, R.search ρ (R.beginRoute c st) c tid sync = .found marks k →
      BestFirst.trace marks (R.database.source c) fuel (R.database.sink c) = some p →
      p.length < 10000) :
    ∃ success st', R.routeOneConnection ρ c tid sync st = some (success, st') ∧
      (success = true ↔ R.SinkReachable st c) ∧
      (success = true →
        (st'.conn c).rnodes.head? = some (R.database.sink c) ∧
        (st'.conn c).rnodes.getLast? = some (R.database.source c) ∧
        (st'.conn c).rnodes.Nodup ∧
        (st'.conn c).rnodes.IsChain (fun v u => v ∈ R.database.children u) ∧
        ∀ v ∈ (st'.conn c).rnodes, v ≠ R.database.sink c → v ≠ R.database.source c →
          R.PassesFilter st c v) := by
  have hstart : BestFirst.Exploring R.database.children (R.problem ρ (R.beginRoute c st) c tid sync) ∅
      (BestFirst.start R.queue (R.problem ρ (R.beginRoute c st) c tid sync)
        ((R.beginRoute c st).marks tid)) [R.database.source c] :=
    BestFirst.start_exploring hid hne hfresh
  obtain ⟨-, -, hhalted⟩ :=
    BestFirst.loop_exploring (Q := R.queue) hid (R.database.numNodes + 1) 0 hstart
  rw [← R.searchLoop_eq] at hhalted
  have hends : (R.routeOneConnection ρ c tid sync st).isSome := by
    refine routeOneConnection_isSome (fun hsearch => ?_) fun marks k hsearch => ?_
    · obtain ⟨v, hv, hhalt⟩ := hhalted hsearch
      exact absurd hhalt (not_halt (htypes v hv) (hcosts v hv))
    · obtain ⟨fuel, path, htrace⟩ := (metBelow_of_found hid hne hfresh hsearch).trace_isSome hne
      have hlen : path.length < 10000 := hdog marks k fuel path hsearch htrace
      exact ⟨path, BestFirst.trace_of_length_le htrace (Nat.le_of_lt_succ hlen)⟩
  obtain ⟨⟨success, st'⟩, hresult⟩ := Option.isSome_iff_exists.1 hends
  refine ⟨success, st', hresult, ?_⟩
  cases success with
  | false =>
    have hunreachable := not_sinkReachable_of_fails ⟨hid, hne, hfresh⟩ hresult
    refine ⟨⟨fun h => ?_, fun h => absurd h hunreachable⟩, fun h => ?_⟩
    · cases h
    · cases h
  | true =>
    obtain ⟨marks, k, hsearch, htrace⟩ := exists_found hresult hnil
    have hbelow := metBelow_of_found hid hne hfresh hsearch
    obtain ⟨hroute, -, hinner⟩ := hbelow.route htrace
    obtain ⟨u, hu, hsink⟩ := hbelow.reachable
    have hreach : R.SinkReachable st c := by
      refine ⟨u, ReflTransGen.mono ?_ _ _ hu, hsink⟩
      rintro a b ⟨hchild, costs, hvisit⟩
      exact ⟨hchild, passesFilter_of_visit hvisit⟩
    refine ⟨⟨fun _ => hreach, fun _ => rfl⟩, fun _ => ?_⟩
    refine ⟨hroute.head, hroute.last, hroute.nodup, hroute.chain, fun v hv hnsink hnsource => ?_⟩
    obtain ⟨costs, hvisit⟩ := hinner v hv hnsink hnsource
    exact passesFilter_of_visit hvisit

end Result

/-! The second net of the crossing. Both wires pass its filter; wire 4 is held by the first net, so that
wire 5 is taken from the queue before it. -/

section Crossing

open crossing

/-- The sinks are reserved, connection 0 is routed and connection 1 ripped up. -/
def crossingHalfRouted : Option (RouterState (crossing 1 false).database) :=
  (((crossing 1 false).updateSinkNodeUsage (.init (fun _ => false) (fun _ => false) 0 0)).bind
    ((crossing 1 false).reroute (conn 0))).bind ((crossing 1 false).ripup .own (conn 1) false)

/-- What the search then meets. -/
theorem exists_crossingHalfRouted :
    ∃ st ∈ crossingHalfRouted, (st.conn (conn 1)).rnodes = [] ∧ (st.node (node 4)).occupancy = 1 ∧
      (crossing 1 false).connectionUniqueId st (conn 1) ≠ -1 ∧
      (∀ r, (st.info 0 r).isVisited ≠ (crossing 1 false).connectionUniqueId st (conn 1) ∧
        (st.info 0 r).isTarget ≠ (crossing 1 false).connectionUniqueId st (conn 1)) ∧
      (crossing 1 false).examined .own ((crossing 1 false).beginRoute (conn 1) st) (conn 1) 0 false =
        [node 4, node 5] ∧
      (∀ v ∈ [node 4, node 5], (crossing 1 false).database.InBox (conn 1) v ∧
        ∃ cost ∈ (crossing 1 false).nodeCost .own ((crossing 1 false).beginRoute (conn 1) st) (conn 1) 0
          false v, ((0 : Int) : ℚ) ≤ cost) ∧
      ((crossing 1 false).routeOneConnection .own (conn 1) 0 false st).map
        (fun p => (p.2.conn (conn 1)).rnodes) = some [node 3, node 5, node 2] := by
  decide +kernel

/-- Connection 1 is routed, through wire 5. -/
theorem routeOneConnection_iff_crossing :
    ∃ st ∈ crossingHalfRouted, (st.node (node 4)).occupancy = 1 ∧ ∃ st',
      (crossing 1 false).routeOneConnection .own (conn 1) 0 false st = some (true, st') ∧
      (st'.conn (conn 1)).rnodes = [node 3, node 5, node 2] ∧
      (crossing 1 false).PassesFilter st (conn 1) (node 5) := by
  obtain ⟨st, hst, hnil, hocc, hid, hfresh, hexamined, hnodes, hrnodes⟩ := exists_crossingHalfRouted
  have htypes : ∀ v ∈ (crossing 1 false).examined .own ((crossing 1 false).beginRoute (conn 1) st)
      (conn 1) 0 false, (crossing 1 false).database.InBox (conn 1) v →
      ((crossing 1 false).database.routeNodes v).type ≠ .superLongLine ∧
        ((crossing 1 false).database.routeNodes v).type ≠ .pinfeedO := by
    rw [hexamined]
    decide +kernel
  have hcosts : ∀ v ∈ (crossing 1 false).examined .own ((crossing 1 false).beginRoute (conn 1) st)
      (conn 1) 0 false, (crossing 1 false).PassesFilter st (conn 1) v →
      ∃ cost, (crossing 1 false).nodeCost .own ((crossing 1 false).beginRoute (conn 1) st) (conn 1) 0
        false v = some cost ∧ ((0 : Int) : ℚ) ≤ cost := by
    rw [hexamined]
    exact fun v hv _ => (hnodes v hv).2
  have hdog : ∀ marks k fuel p, (crossing 1 false).search .own
        ((crossing 1 false).beginRoute (conn 1) st) (conn 1) 0 false = .found marks k →
      BestFirst.trace marks ((crossing 1 false).database.source (conn 1)) fuel
        ((crossing 1 false).database.sink (conn 1)) = some p → p.length < 10000 := by
    intro marks k fuel p hfound htrace
    have hle := (isPath_of_found hfound htrace).nodup.length_le_card
    rw [Fintype.card_fin] at hle
    exact lt_of_le_of_lt hle (by decide)
  obtain ⟨success, st', hroute, hiff, hpath⟩ :=
    routeOneConnection_iff hid (by decide) hnil hfresh htypes hcosts hdog
  have hreach : (crossing 1 false).SinkReachable st (conn 1) := by
    refine ⟨node 5, .single ⟨by decide +kernel, (hnodes (node 5) (by decide)).1, ?_⟩, by decide +kernel⟩
    show (crossing 1 false).graphIsAccessible (node 5) (conn 1) = true
    decide +kernel
  obtain rfl := hiff.2 hreach
  rw [hroute, Option.map_some, Option.some_inj] at hrnodes
  obtain ⟨-, -, -, -, hpass⟩ := hpath rfl
  refine ⟨st, hst, hocc, st', hroute, hrnodes, hpass (node 5) ?_ (by decide) (by decide)⟩
  rw [hrnodes]
  decide

end Crossing

/-! ## The ways of a connection

Where a route of a connection can lead, whatever the costs. -/

/-- The nodes that a search for `c` can go through. With old marks it can take any sink pin for its
target. -/
def MayEnter (st : RouterState R.database) (tid : Nat) (c : R.database.ConnId)
    (v : R.database.NodeId) : Prop :=
  R.PassesFilter st c v ∨
    (¬R.Unmarked st tid c ∧ R.database.InBox c v ∧ (R.database.routeNodes v).type = .pinfeedI)

/-- An edge that a route of `c` can take. -/
def WayEdge (st : RouterState R.database) (tid : Nat) (c : R.database.ConnId)
    (u v : R.database.NodeId) : Prop :=
  v ∈ R.database.children u ∧ (v = R.database.sink c ∨ R.MayEnter st tid c v)

/-- The node is on a way from the source of `c` to its sink. -/
def OnWay (st : RouterState R.database) (tid : Nat) (c : R.database.ConnId)
    (v : R.database.NodeId) : Prop :=
  ReflTransGen (R.WayEdge st tid c) (R.database.source c) v ∧
    ReflTransGen (R.WayEdge st tid c) v (R.database.sink c)

section Ways

variable {R} {ρ : Reads R.database.NodeId K} {st st' : RouterState R.database}
  {c : R.database.ConnId} {tid : Nat} {sync : Bool}

/-- The ways of a connection depend on the users of its net and on the marks of the thread. -/
theorem OnWay.mono {v : R.database.NodeId} (h : R.OnWay st' tid c v)
    (husers : (st'.net (R.database.netOf c)).usersConnectionCounts =
      (st.net (R.database.netOf c)).usersConnectionCounts)
    (hmarks : R.Unmarked st tid c → R.Unmarked st' tid c) : R.OnWay st tid c v := by
  have hpass : ∀ w, R.PassesFilter st' c w → R.PassesFilter st c w := by
    intro w hw
    unfold PassesFilter NetUsers.countConnectionsOfUser at hw ⊢
    rw [husers] at hw
    exact hw
  have hedge : ∀ a b, R.WayEdge st' tid c a b → R.WayEdge st tid c a b := by
    rintro a b ⟨hchild, hb⟩
    refine ⟨hchild, hb.imp_right fun hb => ?_⟩
    exact hb.imp (hpass b) fun hb => ⟨fun hfresh => hb.1 (hmarks hfresh), hb.2⟩
  exact ⟨ReflTransGen.mono hedge _ _ h.1, ReflTransGen.mono hedge _ _ h.2⟩

/-- A node that is pushed may be entered, whatever the marks say. -/
theorem mayEnter_of_accepts {v : R.database.NodeId}
    (h : (R.problem ρ (R.beginRoute c st) c tid sync).Accepts v) (hmarked : ¬R.Unmarked st tid c) :
    R.MayEnter st tid c v := by
  have hbox := inBox_of_accepts h
  obtain ⟨t, costs, hv⟩ := h
  cases t with
  | false => exact .inl (passesFilter_of_visit hv)
  | true =>
    by_cases htype : (R.database.routeNodes v).type = .pinfeedI
    · exact .inr ⟨hmarked, hbox, htype⟩
    · refine .inl ⟨hbox, ?_⟩
      simp only [problem, childVerdict, isAccessible, hbox, decide_true, not_true_eq_false,
        ↓reduceIte] at hv
      cases hcase : (R.database.routeNodes v).type with
      | wire =>
        rw [hcase] at hv
        by_contra haccess
        simp only [if_pos haccess] at hv
        cases hv
      | pinbounce =>
        rw [hcase] at hv
        cases hv
      | pinfeedI => exact absurd hcase htype
      | lagunaI =>
        rw [hcase] at hv
        cases hv
      | superLongLine => trivial
      | pinfeedO => trivial

/-- **A route lies on the ways of its connection.** -/
theorem onWay_of_route (h : R.routeOneConnection ρ c tid sync st = some (true, st'))
    (hnil : (st.conn c).rnodes = []) : ∀ v ∈ (st'.conn c).rnodes, R.OnWay st tid c v := by
  obtain ⟨marks, k, hsearch, htrace⟩ := exists_found h hnil
  have hpath := isPath_of_found hsearch htrace
  have henter : ∀ v ∈ (st'.conn c).rnodes, v ≠ R.database.source c →
      v = R.database.sink c ∨ R.MayEnter st tid c v := by
    intro v hv hsource
    by_cases hsink : v = R.database.sink c
    · exact .inl hsink
    right
    by_cases hfresh : R.Unmarked st tid c
    · obtain ⟨-, -, hinner⟩ :=
        (metBelow_of_found hfresh.1 hfresh.2.1 hfresh.2.2 hsearch).route htrace
      obtain ⟨costs, hvisit⟩ := hinner v hv hsink hsource
      exact .inl (passesFilter_of_visit hvisit)
    · rw [search, searchLoop_eq] at hsearch
      obtain ⟨hroute, -⟩ := BestFirst.found_route
        (BestFirst.loop_found (BestFirst.start_searching _) hsearch) htrace
      exact mayEnter_of_accepts
        (((hroute.accepted v hv).resolve_left hsink).resolve_left hsource) hfresh
  -- the route lists the way backwards, and comes to its source at the end only
  have hedges : (st'.conn c).rnodes.IsChain fun v u => R.WayEdge st tid c u v := by
    rw [List.isChain_iff_getElem]
    intro i hi
    refine ⟨List.isChain_iff_getElem.1 hpath.chain i hi, henter _ (List.getElem_mem _) fun e => ?_⟩
    have hlast := hpath.last
    rw [List.getLast?_eq_getElem?, List.getElem?_eq_getElem (by omega), Option.some_inj, ← e,
      hpath.nodup.getElem_inj_iff] at hlast
    omega
  intro v hv
  constructor
  · refine hedges.backwards_induction (ReflTransGen (R.WayEdge st tid c) (R.database.source c)) _
      (fun a b hab hb => hb.tail hab) (fun hne => ?_) v hv
    rw [List.getLast_of_getLast?_eq_some hpath.last]
  · refine hedges.induction (fun u => ReflTransGen (R.WayEdge st tid c) u (R.database.sink c)) _
      (fun a b hab ha => ha.head hab) (fun hne => ?_) v hv
    rw [List.head_of_head?_eq_some hpath.head]

end Ways

end AStarRoute

end Potter
