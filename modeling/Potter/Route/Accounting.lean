import Potter.Lib.Counting
import Potter.Lib.Folds
import Potter.Lib.Tally
import Potter.Route.StableFirst
import Mathlib.Algebra.Order.BigOperators.Group.List

/-!
# Usage accounting

Every net counts the connections that use a node, and every node counts the nets. `Counts st g` says
that the counts of a state are those of a function `g`; each operation on the counts changes `g` at
one net (`Counts.useNode`, `Counts.leaveNode`, `Counts.commitIncrement`, `Counts.commitDecrement`).

The counts of a settled state are the demand of its routes, where a connection without a route
demands its sink (`Settled`). Immediate steps keep that (`Settled.reroute`). During a batch the
counts stay as they were at its start while the routes change; the difference stands in the maps of
the nets (`Pending`), and merging the maps settles it.
-/

namespace Potter

open Lib

namespace AStarRoute

variable {K : Type} [Arith K] (R : AStarRoute K)

/-! ## The demand of the routes -/

/-- How often connection `c` holds node `r`. The connections of `F` are in flight: they have been
ripped up and not yet routed, and hold nothing. -/
def heldCount (F : Finset R.database.ConnId) (st : RouterState R.database)
    (c : R.database.ConnId) (r : R.database.NodeId) : Nat :=
  if c ∈ F then 0 else (R.heldNodes st c).count r

/-- How often the connections of net `n` hold node `r`. -/
def demand (F : Finset R.database.ConnId) (st : RouterState R.database) (n : R.database.NetId)
    (r : R.database.NodeId) : Nat :=
  ((R.database.nets n).indirectConns.map fun c => R.heldCount F st c r).sum

variable {R} {st st' : RouterState R.database} {F F' : Finset R.database.ConnId}

theorem heldNodes_congr {c : R.database.ConnId} (h : (st'.conn c).rnodes = (st.conn c).rnodes) :
    R.heldNodes st' c = R.heldNodes st c := by
  simp only [heldNodes, h]

theorem heldCount_congr {c : R.database.ConnId} (h : (st'.conn c).rnodes = (st.conn c).rnodes)
    (hF : c ∈ F' ↔ c ∈ F) : R.heldCount F' st' c = R.heldCount F st c := by
  funext r
  simp only [heldCount, heldNodes_congr h, hF]

theorem demand_congr {n : R.database.NetId}
    (h : ∀ c, R.database.netOf c = n → R.heldCount F' st' c = R.heldCount F st c) :
    R.demand F' st' n = R.demand F st n := by
  funext r
  simp only [demand]
  congr 1
  exact List.map_congr_left fun c hc => by rw [h c (R.database.netOf_eq hc)]

/-- Changing what `c` holds moves the demand of its net. -/
theorem demand_replace {c : R.database.ConnId}
    (h : ∀ d, d ≠ c → R.heldCount F' st' d = R.heldCount F st d) (r : R.database.NodeId) :
    R.demand F' st' (R.database.netOf c) r + R.heldCount F st c r =
      R.demand F st (R.database.netOf c) r + R.heldCount F' st' c r :=
  sum_map_replace (f := fun d => R.heldCount F st d r) (g := fun d => R.heldCount F' st' d r)
    (fun d hd => congrFun (h d hd) r) (R.database.nodup_indirectConns _)
    (R.database.mem_conns_netOf c)

/-- The demand of a net that `c` does not belong to stays. -/
theorem demand_other {c : R.database.ConnId}
    (h : ∀ d, d ≠ c → R.heldCount F' st' d = R.heldCount F st d) {n : R.database.NetId}
    (hn : n ≠ R.database.netOf c) : R.demand F' st' n = R.demand F st n :=
  demand_congr fun d hd => h d fun e => hn (by rw [← hd, e])

/-- A connection's own part of the demand. -/
theorem heldCount_le (F : Finset R.database.ConnId) (st : RouterState R.database)
    (c : R.database.ConnId) (r : R.database.NodeId) :
    R.heldCount F st c r ≤ R.demand F st (R.database.netOf c) r :=
  List.single_le_sum (by simp) _ (List.mem_map_of_mem (R.database.mem_conns_netOf c))

/-! ## Counts and occupancies -/

/-- The users counted by the nets are `g`, and the occupancies count the nets. -/
structure Counts (st : RouterState R.database) (g : R.database.NetId → R.database.NodeId → Nat) :
    Prop where
  tallies : ∀ n, Tally.Tallies (st.net n).usersConnectionCounts (g n)
  occupancy : ∀ r, (st.node r).occupancy = usersOf g r

section Counts

variable {g : R.database.NetId → R.database.NodeId → Nat} {n : R.database.NetId}

theorem Counts.congr (h : Counts st g)
    (hnet : ∀ m, (st'.net m).usersConnectionCounts = (st.net m).usersConnectionCounts)
    (hocc : ∀ r, (st'.node r).occupancy = (st.node r).occupancy) : Counts st' g :=
  ⟨fun m => by rw [hnet m]; exact h.tallies m, fun r => by rw [hocc r]; exact h.occupancy r⟩

/-- One count of one net changes from `g n r` to `k`. -/
theorem Counts.setKey (h : Counts st g) {r : R.database.NodeId} {k : Nat}
    (hnet : ∀ m, m ≠ n → (st'.net m).usersConnectionCounts = (st.net m).usersConnectionCounts)
    (htal : Tally.Tallies (st'.net n).usersConnectionCounts (Function.update (g n) r k))
    (hocc : ∀ a, a ≠ r → (st'.node a).occupancy = (st.node a).occupancy)
    (hr : (st'.node r).occupancy =
      (st.node r).occupancy + (if 0 < k then 1 else 0) - (if 0 < g n r then 1 else 0)) :
    Counts st' (Function.update g n (Function.update (g n) r k)) := by
  refine ⟨fun m => ?_, fun a => ?_⟩
  · by_cases hm : m = n
    · subst hm
      rw [Function.update_self]
      exact htal
    · rw [Function.update_of_ne hm, hnet m hm]
      exact h.tallies m
  · rw [usersOf_update, ← h.occupancy a]
    by_cases ha : a = r
    · subst ha
      rw [Function.update_self, hr]
    · rw [Function.update_of_ne ha, hocc a ha]
      ring

theorem Counts.useNode (h : Counts st g) (ρ : Reads R.database.NodeId K) (r : R.database.NodeId) :
    Counts (R.useNode ρ n st r)
      (Function.update g n (Function.update (g n) r (g n r + 1))) := by
  obtain ⟨htal, hnew⟩ := (h.tallies n).incr r
  replace hnew : ((st.net n).incrementUser r).2 = true ↔ g n r = 0 := hnew
  refine h.setKey (fun m hm => ?_) ?_ (fun a ha => ?_) ?_
  · simp [AStarRoute.useNode, hm]
  · simpa [AStarRoute.useNode, NetUsers.incrementUser] using htal
  · simp [AStarRoute.useNode, ha]
  · simp only [AStarRoute.useNode, RouterState.withNode_node,
      Function.update_self, NodeState.updatePresentCongestionCost_occupancy]
    by_cases h0 : g n r = 0
    · rw [if_pos (hnew.2 h0)]
      simp [NodeState.incrementOccupancy, h0]
    · rw [if_neg (fun e => h0 (hnew.1 e))]
      simp [Nat.pos_of_ne_zero h0]

theorem Counts.leaveNode (h : Counts st g) (ρ : Reads R.database.NodeId K) {r : R.database.NodeId}
    (hr : 0 < g n r) :
    Counts (R.leaveNode ρ n st r)
      (Function.update g n (Function.update (g n) r (g n r - 1))) := by
  obtain ⟨htal, hlast⟩ := (h.tallies n).decr hr
  replace hlast : ((st.net n).decrementUser r).2 = true ↔ g n r = 1 := hlast
  refine h.setKey (fun m hm => ?_) ?_ (fun a ha => ?_) ?_
  · simp [AStarRoute.leaveNode, hm]
  · simpa [AStarRoute.leaveNode, NetUsers.decrementUser] using htal
  · simp [AStarRoute.leaveNode, ha]
  · simp only [AStarRoute.leaveNode, RouterState.withNode_node,
      Function.update_self, NodeState.updatePresentCongestionCost_occupancy]
    by_cases h1 : g n r = 1
    · rw [if_pos (hlast.2 h1)]
      simp [NodeState.decrementOccupancy, h1]
    · rw [if_neg (fun e => h1 (hlast.1 e)), if_pos (by omega), if_pos hr]
      ring

/-- The nodes of a list in turn. -/
theorem Counts.useAll (ρ : Reads R.database.NodeId K) :
    ∀ (l : List R.database.NodeId) {st : RouterState R.database}
      {g : R.database.NetId → R.database.NodeId → Nat}, Counts st g →
      Counts (l.foldl (R.useNode ρ n) st) (Function.update g n fun r => g n r + l.count r)
  | [], st, g, h => by simpa using h
  | r :: l, st, g, h => by
    have ih := (h.useNode (n := n) ρ r).useAll ρ l
    rw [Function.update_idem, Function.update_self] at ih
    have e : (fun a => g n a + (r :: l).count a) =
        fun a => Function.update (g n) r (g n r + 1) a + l.count a := by
      funext a
      by_cases ha : a = r
      · subst ha
        rw [Function.update_self, List.count_cons_self]
        omega
      · rw [Function.update_of_ne ha, List.count_cons_of_ne (Ne.symm ha)]
    rw [e]
    exact ih

theorem Counts.leaveAll (ρ : Reads R.database.NodeId K) :
    ∀ (l : List R.database.NodeId) {st : RouterState R.database}
      {g : R.database.NetId → R.database.NodeId → Nat}, Counts st g → (∀ r, l.count r ≤ g n r) →
      Counts (l.foldl (R.leaveNode ρ n) st) (Function.update g n fun r => g n r - l.count r)
  | [], st, g, h, _ => by simpa using h
  | r :: l, st, g, h, hle => by
    have hr : 0 < g n r := by
      have := hle r
      rw [List.count_cons_self] at this
      omega
    have e : ∀ a, Function.update (g n) r (g n r - 1) a - l.count a = g n a - (r :: l).count a ∧
        l.count a ≤ Function.update (g n) r (g n r - 1) a := by
      intro a
      have hla := hle a
      by_cases ha : a = r
      · subst ha
        rw [Function.update_self]
        rw [List.count_cons_self] at hla ⊢
        omega
      · rw [Function.update_of_ne ha]
        rw [List.count_cons_of_ne (Ne.symm ha)] at hla ⊢
        exact ⟨rfl, hla⟩
    have ih := (h.leaveNode (n := n) ρ hr).leaveAll ρ l
      (fun a => by rw [Function.update_self]; exact (e a).2)
    rw [Function.update_idem, Function.update_self] at ih
    rw [show (fun a => g n a - (r :: l).count a) =
        fun a => Function.update (g n) r (g n r - 1) a - l.count a from funext fun a => (e a).1.symm]
    exact ih

end Counts

/-! ## What the parts of a step leave alone -/

section Frame

variable {ρ : Reads R.database.NodeId K} {c : R.database.ConnId} {tid : Nat} {sync : Bool}

@[simp] theorem foldl_useNode_conn (n : R.database.NetId) (l : List R.database.NodeId) :
    (l.foldl (R.useNode ρ n) st).conn = st.conn :=
  foldl_frame (f := R.useNode ρ n) (p := RouterState.conn) (fun _ _ => rfl) l st

@[simp] theorem foldl_leaveNode_conn (n : R.database.NetId) (l : List R.database.NodeId) :
    (l.foldl (R.leaveNode ρ n) st).conn = st.conn :=
  foldl_frame (f := R.leaveNode ρ n) (p := RouterState.conn) (fun _ _ => rfl) l st

@[simp] theorem foldl_preIncrement_conn (n : R.database.NetId) (l : List R.database.NodeId) :
    (l.foldl (R.preIncrement n) st).conn = st.conn :=
  foldl_frame (f := R.preIncrement n) (p := RouterState.conn) (fun _ _ => rfl) l st

theorem runAll_preDecrement_conn {n : R.database.NetId} {l : List R.database.NodeId}
    (h : runAll (R.preDecrement n) l st = some st') : st'.conn = st.conn := by
  refine runAll_invariant (I := fun s => s.conn = st.conn) (fun r _ s t hs ht => ?_) rfl h
  obtain ⟨u, -, rfl⟩ := Option.map_eq_some_iff.1 ht
  exact hs

/-- A rip-up clears the route and changes no other connection. -/
theorem ripup_conn (h : R.ripup ρ c sync st = some st') :
    st'.conn = Function.update st.conn c ((st.conn c).resetRoute.setRouted false) := by
  simp only [ripup] at h
  split at h
  · cases h
  · obtain ⟨t, ht, rfl⟩ := Option.map_eq_some_iff.1 h
    have hconn : t.conn = st.conn := by
      cases sync with
      | false =>
        cases ht
        exact foldl_leaveNode_conn _ _
      | true => exact runAll_preDecrement_conn ht
    rw [RouterState.withConn_conn, hconn]

/-- Committing a route sets the flag of its connection and keeps every route. -/
theorem commitRoute_conn (ρ : Reads R.database.NodeId K) (c : R.database.ConnId) (sync : Bool)
    (k : Nat) (st : RouterState R.database) : ∃ s : ConnState R.database.NodeId,
    (R.commitRoute ρ c sync k st).conn = Function.update st.conn c s ∧
      s.rnodes = (st.conn c).rnodes ∧ s.isRouted = true := by
  cases sync with
  | false =>
    refine ⟨(st.conn c).setRouted true, ?_, rfl, rfl⟩
    simp [commitRoute, updateUsersAndPresentCongestionCost]
  | true =>
    simp only [commitRoute, ↓reduceIte, RouterState.withConn_conn, foldl_preIncrement_conn]
    exact ⟨_, rfl, rfl, rfl⟩

/-- **A successful search gives its connection a path**, and leaves the other routes. -/
theorem route_conn (hnil : (st.conn c).rnodes = [])
    (h : R.routeOneConnection ρ c tid sync st = some (true, st')) :
    R.database.IsPath c (st'.conn c).rnodes ∧ (st'.conn c).isRouted = true ∧
      ∀ d, d ≠ c → st'.conn d = st.conn d := by
  obtain ⟨marks, k, path, hp, rfl⟩ := routeOneConnection_true h
  obtain ⟨s, hs, hr, hf⟩ := commitRoute_conn ρ c sync k
    (appendPath c path ((R.beginRoute c st).withMarks tid marks))
  refine ⟨?_, by rw [hs, Function.update_self]; exact hf, fun d hd => ?_⟩
  · rw [hs, Function.update_self, hr]
    simpa [appendPath, beginRoute, ConnState.setRoutedThisIter, hnil] using hp
  · rw [hs, Function.update_of_ne hd]
    simp [appendPath, beginRoute, hd]

/-- Rip-up and a successful search replace the route by a path. -/
theorem reroute_conn {st₁ : RouterState R.database} (h : R.ripup ρ c sync st = some st₁)
    (h' : R.routeOneConnection ρ c tid sync st₁ = some (true, st')) :
    R.database.IsPath c (st'.conn c).rnodes ∧ (st'.conn c).isRouted = true ∧
      ∀ d, d ≠ c → st'.conn d = st.conn d := by
  have hconn := ripup_conn h
  obtain ⟨hp, hr, hother⟩ := route_conn (by rw [hconn, Function.update_self]; rfl) h'
  exact ⟨hp, hr, fun d hd => by rw [hother d hd, hconn, Function.update_of_ne hd]⟩

end Frame

/-! ## Settled states -/

/-- Every route is a path, and a connection that is not routed has none. -/
structure Routes (st : RouterState R.database) : Prop where
  isPath : ∀ c, (st.conn c).isRouted = true → R.database.IsPath c (st.conn c).rnodes
  eq_nil : ∀ c, (st.conn c).isRouted = false → (st.conn c).rnodes = []

/-- The counts are those the routes demand, apart from the connections in flight. -/
structure Settled (F : Finset R.database.ConnId) (st : RouterState R.database) : Prop where
  routes : Routes st
  inFlight : ∀ c ∈ F, (st.conn c).isRouted = false
  counts : Counts st (R.demand F st)

section Settled

variable {ρ : Reads R.database.NodeId K} {c : R.database.ConnId} {tid : Nat} {sync : Bool}
  {st₁ : RouterState R.database}

theorem heldNodes_of_isPath (h : R.database.IsPath c (st.conn c).rnodes) :
    R.heldNodes st c = (st.conn c).rnodes := by
  rw [heldNodes, if_neg h.ne_nil]

/-- The nodes a connection holds are different. -/
theorem Routes.nodup_heldNodes (h : Routes st) (c : R.database.ConnId) :
    (R.heldNodes st c).Nodup := by
  cases hc : (st.conn c).isRouted with
  | true =>
    rw [heldNodes_of_isPath (h.isPath c hc)]
    exact (h.isPath c hc).nodup
  | false =>
    rw [heldNodes, if_pos (h.eq_nil c hc)]
    exact List.nodup_singleton _

theorem Routes.isRouted_iff (h : Routes st) (c : R.database.ConnId) :
    (st.conn c).isRouted = true ↔ (st.conn c).rnodes ≠ [] := by
  refine ⟨fun hc => (h.isPath c hc).ne_nil, fun hne => ?_⟩
  by_contra hc
  exact hne (h.eq_nil c (Bool.eq_false_iff.2 hc))

theorem Routes.congr (h : Routes st)
    (hconn : ∀ c, (st'.conn c).rnodes = (st.conn c).rnodes ∧
      (st'.conn c).isRouted = (st.conn c).isRouted) : Routes st' := by
  refine ⟨fun c hc => ?_, fun c hc => ?_⟩
  · rw [(hconn c).1]
    exact h.isPath c ((hconn c).2 ▸ hc)
  · rw [(hconn c).1]
    exact h.eq_nil c ((hconn c).2 ▸ hc)

theorem Routes.ripup (h : Routes st) (hrip : R.ripup ρ c sync st = some st') : Routes st' := by
  have hconn := ripup_conn hrip
  refine ⟨fun d hd => ?_, fun d hd => ?_⟩
  · rw [hconn] at hd ⊢
    by_cases e : d = c
    · subst e
      rw [Function.update_self] at hd
      cases hd
    · rw [Function.update_of_ne e] at hd ⊢
      exact h.isPath d hd
  · rw [hconn] at hd ⊢
    by_cases e : d = c
    · subst e
      rw [Function.update_self]
      rfl
    · rw [Function.update_of_ne e] at hd ⊢
      exact h.eq_nil d hd

theorem Routes.route (h : Routes st) (hp : R.database.IsPath c (st'.conn c).rnodes)
    (hr : (st'.conn c).isRouted = true) (hother : ∀ d, d ≠ c → st'.conn d = st.conn d) :
    Routes st' := by
  refine ⟨fun d hd => ?_, fun d hd => ?_⟩
  · by_cases e : d = c
    · exact e ▸ hp
    · rw [hother d e] at hd ⊢
      exact h.isPath d hd
  · by_cases e : d = c
    · rw [e, hr] at hd
      cases hd
    · rw [hother d e] at hd ⊢
      exact h.eq_nil d hd

/-- An immediate rip-up takes the nodes held out of the counts. -/
theorem Counts.ripup {g : R.database.NetId → R.database.NodeId → Nat} (h : Counts st g)
    (hle : ∀ r, (R.heldNodes st c).count r ≤ g (R.database.netOf c) r)
    (hrip : R.ripup ρ c false st = some st') :
    Counts st' (Function.update g (R.database.netOf c) fun r =>
      g (R.database.netOf c) r - (R.heldNodes st c).count r) := by
  simp only [AStarRoute.ripup] at hrip
  split at hrip
  · cases hrip
  · simp only [Bool.false_eq_true, ↓reduceIte, Option.map_some, Option.some.injEq] at hrip
    subst hrip
    exact (h.leaveAll ρ (R.heldNodes st c) hle).congr (fun _ => rfl) fun _ => rfl

/-- An immediate commit enters the path in the counts. -/
theorem Counts.route {g : R.database.NetId → R.database.NodeId → Nat} (h : Counts st g)
    (hnil : (st.conn c).rnodes = [])
    (hroute : R.routeOneConnection ρ c tid false st = some (true, st')) :
    Counts st' (Function.update g (R.database.netOf c) fun r =>
      g (R.database.netOf c) r + (st'.conn c).rnodes.count r) := by
  obtain ⟨marks, k, path, -, rfl⟩ := routeOneConnection_true hroute
  obtain ⟨s, hs, hr, -⟩ := commitRoute_conn ρ c false k
    (appendPath c path ((R.beginRoute c st).withMarks tid marks))
  have hpath : s.rnodes = path := by
    rw [hr]
    simp [appendPath, beginRoute, ConnState.setRoutedThisIter, hnil]
  rw [hs, Function.update_self, hpath]
  have hstart : Counts ((appendPath c path ((R.beginRoute c st).withMarks tid marks)).withConn c
      (((appendPath c path ((R.beginRoute c st).withMarks tid marks)).conn c).setRouted true)) g :=
    h.congr (fun _ => rfl) fun _ => rfl
  have hall := hstart.useAll (n := R.database.netOf c) ρ path
  simpa [commitRoute, updateUsersAndPresentCongestionCost, appendPath, beginRoute,
    ConnState.setRouted, ConnState.setRoutedThisIter, hnil] using hall

/-- An immediate rip-up sends the connection in flight. -/
theorem Settled.ripup (h : Settled F st) (hc : c ∉ F) (hrip : R.ripup ρ c false st = some st') :
    Settled (insert c F) st' := by
  have hconn := ripup_conn hrip
  have hother : ∀ d, d ≠ c → R.heldCount (insert c F) st' d = R.heldCount F st d := fun d hd =>
    heldCount_congr (by rw [hconn, Function.update_of_ne hd]) (by simp [hd])
  have hheld : ∀ r, (R.heldNodes st c).count r = R.heldCount F st c r := fun r => by
    rw [heldCount, if_neg hc]
  have hcounts := h.counts.ripup (fun r => by rw [hheld]; exact heldCount_le F st c r) hrip
  refine ⟨h.routes.ripup hrip, fun d hd => ?_, ?_⟩
  · rw [hconn]
    by_cases e : d = c
    · subst e
      rw [Function.update_self]
      rfl
    · rw [Function.update_of_ne e]
      exact h.inFlight d ((Finset.mem_insert.1 hd).resolve_left e)
  · have e : R.demand (insert c F) st' = Function.update (R.demand F st) (R.database.netOf c)
        fun r => R.demand F st (R.database.netOf c) r - (R.heldNodes st c).count r := by
      refine Function.eq_update_iff.2 ⟨funext fun r => ?_, fun m hm => demand_other hother hm⟩
      have hrep := demand_replace hother r
      have hzero : R.heldCount (insert c F) st' c r = 0 := if_pos (Finset.mem_insert_self c F)
      have := heldCount_le F st c r
      rw [hheld]
      omega
    rw [e]
    exact hcounts

/-- An immediate route of a connection in flight lands it. -/
theorem Settled.route (h : Settled F st) (hc : c ∈ F)
    (hroute : R.routeOneConnection ρ c tid false st = some (true, st')) :
    Settled (F.erase c) st' := by
  have hnil := h.routes.eq_nil c (h.inFlight c hc)
  obtain ⟨hp, hr, hconn⟩ := route_conn hnil hroute
  have hother : ∀ d, d ≠ c → R.heldCount (F.erase c) st' d = R.heldCount F st d := fun d hd =>
    heldCount_congr (by rw [(hconn d hd)]) (by simp [hd])
  refine ⟨h.routes.route hp hr hconn, fun d hd => ?_, ?_⟩
  · rw [hconn d (Finset.ne_of_mem_erase hd)]
    exact h.inFlight d (Finset.mem_of_mem_erase hd)
  · have e : R.demand (F.erase c) st' = Function.update (R.demand F st) (R.database.netOf c)
        fun r => R.demand F st (R.database.netOf c) r + (st'.conn c).rnodes.count r := by
      refine Function.eq_update_iff.2 ⟨funext fun r => ?_, fun m hm => demand_other hother hm⟩
      have hrep := demand_replace hother r
      simp only [heldCount, if_pos hc, Finset.notMem_erase, ↓reduceIte,
        heldNodes_of_isPath hp] at hrep
      omega
    rw [e]
    exact h.counts.route hnil hroute

/-- **An immediate step keeps the accounting.** -/
theorem Settled.reroute (h : Settled ∅ st) (hrip : R.ripup ρ c false st = some st₁)
    (hroute : R.routeOneConnection ρ c tid false st₁ = some (true, st')) : Settled ∅ st' := by
  have := (h.ripup (Finset.notMem_empty c) hrip).route (Finset.mem_insert_self c ∅) hroute
  rwa [Finset.erase_insert (Finset.notMem_empty c)] at this

end Settled

/-! ## Accounted states -/

/-- Connection `c` counts as a user of node `r`: by its route, or by the reservation of its sink. -/
def Uses (st : RouterState R.database) (c : R.database.ConnId) (r : R.database.NodeId) : Prop :=
  r ∈ (st.conn c).rnodes ∨ ((st.conn c).rnodes = [] ∧ r = R.database.sink c)

instance (st : RouterState R.database) (c : R.database.ConnId) (r : R.database.NodeId) :
    Decidable (Uses st c r) := inferInstanceAs (Decidable (_ ∨ _))

/-- The number of connections of net `n` that use node `r`. -/
def connectionsUsing (st : RouterState R.database) (n : R.database.NetId)
    (r : R.database.NodeId) : Nat :=
  (R.database.nets n).indirectConns.countP fun c => decide (Uses st c r)

/-- Nets count their connections, and nodes count their nets. -/
structure Accounted (st : RouterState R.database) : Prop where
  counts : ∀ n r, (st.net n).countConnectionsOfUser r = connectionsUsing st n r
  occupancy : ∀ r, (st.node r).occupancy =
    (Finset.univ.filter fun n => 1 ≤ (st.net n).countConnectionsOfUser r).card

section Accounted

theorem uses_iff {c : R.database.ConnId} {r : R.database.NodeId} :
    Uses st c r ↔ r ∈ R.heldNodes st c := by
  unfold Uses heldNodes
  by_cases h : (st.conn c).rnodes = []
  · simp [h]
  · simp [h]

/-- On routes without repetition the demand is the number of users. -/
theorem Routes.demand_eq (h : Routes st) (n : R.database.NetId) (r : R.database.NodeId) :
    R.demand ∅ st n r = connectionsUsing st n r := by
  unfold demand connectionsUsing
  induction (R.database.nets n).indirectConns with
  | nil => rfl
  | cons c l ih =>
    rw [List.map_cons, List.sum_cons, ih, List.countP_cons, Nat.add_comm]
    congr 1
    rw [heldCount, if_neg (Finset.notMem_empty c)]
    by_cases hc : Uses st c r
    · rw [List.count_eq_one_of_mem (h.nodup_heldNodes c) (uses_iff.1 hc)]
      simp [hc]
    · rw [List.count_eq_zero_of_not_mem fun hm => hc (uses_iff.2 hm)]
      simp [hc]

theorem Settled.accounted (h : Settled ∅ st) : Accounted st := by
  have hcount : ∀ n r, (st.net n).countConnectionsOfUser r = R.demand ∅ st n r := fun n r =>
    (h.counts.tallies n).count_eq r
  refine ⟨fun n r => by rw [hcount, h.routes.demand_eq], fun r => ?_⟩
  rw [h.counts.occupancy r, usersOf]
  congr 2
  refine Finset.filter_congr fun n _ => ?_
  rw [hcount n r]
  omega

end Accounted

end AStarRoute

end Potter
