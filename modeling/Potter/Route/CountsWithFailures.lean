import Potter.Lib.SearchFootprint
import Potter.Route.Completeness
import Potter.Route.PresentCost

/-!
# The counts of a run with failed attempts

After a failed attempt a net counts one user of the sink too few, and a further rip-up drives the count
below zero. An entry of a sink may also be zero, when the connection was routed after it had failed; a
zero entry is not a missing entry.

An occupancy counts the nets with a positive count, whatever the counts are, as long as no zero entry
is incremented (`Occupied.useNode`): that makes a count positive without counting the net. A search
does not enter a sink other than its own when its net counts zero or fewer users there, unless it takes
the sink for its target, which it does when the sink still carries its stamp as the mark of an earlier
search (`Mistaken`). Attempts that are not mistaken keep the occupancies right, whether they succeed
or fail, at once (`Occupied.attempt`) and over a batch (`Tracked.routing`, `Collected.merging`).
-/

namespace Potter

open Lib
open BestFirst (Mark)

namespace AStarRoute

variable {K : Type} [Arith K] {R : AStarRoute K} {st st' : RouterState R.database}

/-! ## Occupancies -/

section Occupied

/-- The users of a node that a net counts, if there are any. -/
def positive (st : RouterState R.database) (n : R.database.NetId) (r : R.database.NodeId) : Nat :=
  ((st.net n).countConnectionsOfUser r).toNat

/-- A node's occupancy is the number of nets that count users of it. -/
def Occupied (st : RouterState R.database) : Prop :=
  ∀ r, (st.node r).occupancy = usersOf (positive st) r

variable {n : R.database.NetId}

theorem Occupied.nonneg (h : Occupied st) (r : R.database.NodeId) : 0 ≤ (st.node r).occupancy := by
  rw [h r]
  exact Int.natCast_nonneg _

theorem Occupied.congr (h : Occupied st)
    (hnet : ∀ m, (st'.net m).usersConnectionCounts = (st.net m).usersConnectionCounts)
    (hocc : ∀ r, (st'.node r).occupancy = (st.node r).occupancy) : Occupied st' := by
  have hpos : positive st' = positive st := by
    funext m a
    simp only [positive, NetUsers.countConnectionsOfUser, hnet m]
  intro r
  rw [hocc, hpos]
  exact h r

/-- One count of one net changes. -/
theorem Occupied.setKey (h : Occupied st) {r : R.database.NodeId}
    (hnet : ∀ m, m ≠ n → (st'.net m).usersConnectionCounts = (st.net m).usersConnectionCounts)
    (hkey : ∀ a, a ≠ r →
      (st'.net n).countConnectionsOfUser a = (st.net n).countConnectionsOfUser a)
    (hocc : ∀ a, a ≠ r → (st'.node a).occupancy = (st.node a).occupancy)
    (hr : (st'.node r).occupancy = (st.node r).occupancy +
      (if 1 ≤ (st'.net n).countConnectionsOfUser r then 1 else 0) -
      (if 1 ≤ (st.net n).countConnectionsOfUser r then 1 else 0)) : Occupied st' := by
  have hpos : positive st' = Function.update (positive st) n (positive st' n) := by
    refine Function.eq_update_iff.2 ⟨rfl, fun m hm => ?_⟩
    funext a
    simp only [positive, NetUsers.countConnectionsOfUser, hnet m hm]
  intro a
  rw [hpos, usersOf_update, ← h a]
  by_cases e : a = r
  · subst e
    simp only [positive, Int.lt_toNat, Nat.cast_zero]
    exact hr
  · rw [hocc a e]
    simp only [positive, hkey a e]
    split_ifs <;> omega

/-- A user may come unless it finds an entry of zero. -/
theorem Occupied.useNode (h : Occupied st) (ρ : Reads R.database.NodeId K) {r : R.database.NodeId}
    (hr : (st.net n).usersConnectionCounts.lookup r ≠ some 0) : Occupied (R.useNode ρ n st r) := by
  have hcount : ∀ a, ((R.useNode ρ n st r).net n).countConnectionsOfUser a =
      (st.net n).countConnectionsOfUser a + if a = r then 1 else 0 := by
    intro a
    simp only [AStarRoute.useNode, RouterState.withNode_net, RouterState.withNet_net,
      Function.update_self, NetUsers.incrementUser, NetUsers.countConnectionsOfUser,
      Tally.count_incr]
  have hnew : ((st.net n).incrementUser r).2 = true ↔
      (st.net n).usersConnectionCounts.lookup r = none := Tally.incr_new _ _
  refine h.setKey (n := n) (r := r) (fun m hm => ?_) (fun a ha => ?_) (fun a ha => ?_) ?_
  · simp [AStarRoute.useNode, hm]
  · rw [hcount, if_neg ha, add_zero]
  · simp [AStarRoute.useNode, ha]
  · rw [hcount, if_pos rfl]
    simp only [AStarRoute.useNode, RouterState.withNode_node, Function.update_self,
      NodeState.updatePresentCongestionCost_occupancy]
    cases hl : (st.net n).usersConnectionCounts.lookup r with
    | none =>
      have h0 : (st.net n).countConnectionsOfUser r = 0 := by
        simp [NetUsers.countConnectionsOfUser, Tally.count, hl]
      rw [if_pos (hnew.2 hl), h0]
      simp [NodeState.incrementOccupancy]
    | some k =>
      have hk : (st.net n).countConnectionsOfUser r = k := by
        simp [NetUsers.countConnectionsOfUser, Tally.count, hl]
      have hne : k ≠ 0 := by
        rintro rfl
        exact hr hl
      have hold : ¬((st.net n).incrementUser r).2 = true := by
        rw [hnew, hl]
        exact Option.some_ne_none k
      rw [if_neg hold, hk]
      split_ifs <;> omega

/-- A user may always go, even one that is not counted. -/
theorem Occupied.leaveNode (h : Occupied st) (ρ : Reads R.database.NodeId K)
    (r : R.database.NodeId) : Occupied (R.leaveNode ρ n st r) := by
  have hcount : ∀ a, ((R.leaveNode ρ n st r).net n).countConnectionsOfUser a =
      (st.net n).countConnectionsOfUser a - if a = r then 1 else 0 := by
    intro a
    simp only [AStarRoute.leaveNode, RouterState.withNode_net, RouterState.withNet_net,
      Function.update_self, NetUsers.decrementUser, NetUsers.countConnectionsOfUser,
      Tally.count_decr]
  have hlast : ((st.net n).decrementUser r).2 = true ↔ (st.net n).countConnectionsOfUser r = 1 :=
    Tally.decr_erased _ _
  refine h.setKey (n := n) (r := r) (fun m hm => ?_) (fun a ha => ?_) (fun a ha => ?_) ?_
  · simp [AStarRoute.leaveNode, hm]
  · rw [hcount, if_neg ha, sub_zero]
  · simp [AStarRoute.leaveNode, ha]
  · rw [hcount, if_pos rfl]
    simp only [AStarRoute.leaveNode, RouterState.withNode_node, Function.update_self,
      NodeState.updatePresentCongestionCost_occupancy]
    by_cases h1 : (st.net n).countConnectionsOfUser r = 1
    · rw [if_pos (hlast.2 h1), h1]
      simp [NodeState.decrementOccupancy]
    · rw [if_neg fun e => h1 (hlast.1 e)]
      split_ifs <;> omega

/-- Several users may come where there is no entry, or some users already. -/
theorem Occupied.commitIncrement (h : Occupied st) {b : Int}
    {e : Sigma fun _ : R.database.NodeId => Int}
    (he : ∀ k, (st.net n).usersConnectionCounts.lookup e.1 = some k → 1 ≤ k) :
    Occupied (R.commitIncrement b n e st) := by
  have hlook := Tally.lookup_incrTimes e.1
  have hnew := Tally.incrTimes_new e.1 e.2.toNat (st.net n).usersConnectionCounts
  simp only [AStarRoute.commitIncrement]
  split
  · rename_i hb
    obtain ⟨hnone, hk⟩ := hnew.1 hb
    refine h.setKey (n := n) (r := e.1) (fun m hm => ?_) (fun a ha => ?_) (fun a ha => ?_) ?_
    · simp [hm]
    · simp [NetUsers.countConnectionsOfUser, Tally.count, hlook, ha]
    · simp [ha]
    · simp [NetUsers.countConnectionsOfUser, Tally.count, hlook, hnone, hk,
        NodeState.incrementOccupancy, NodeState.setNeedUpdateBatchStamp]
      omega
  · rename_i hb
    refine h.setKey (n := n) (r := e.1) (fun m hm => ?_) (fun a ha => ?_) (fun a ha => rfl) ?_
    · simp [hm]
    · simp [NetUsers.countConnectionsOfUser, Tally.count, hlook, ha]
    · rcases Nat.eq_zero_or_pos e.2.toNat with hk | hk
      · simp only [NetUsers.countConnectionsOfUser, Tally.count, hlook, hk,
          RouterState.withNet_net, RouterState.withNet_node, Function.update_self, lt_self_iff_false,
          and_false, ↓reduceIte]
        split_ifs <;> omega
      · obtain ⟨k, hl⟩ := Option.ne_none_iff_exists'.1 fun hnone => hb (hnew.2 ⟨hnone, hk⟩)
        have := he k hl
        simp only [NetUsers.countConnectionsOfUser, Tally.count, hlook, hk, hl,
          RouterState.withNet_net, RouterState.withNet_node, Function.update_self, and_self,
          ↓reduceIte, Option.getD_some]
        split_ifs <;> omega

/-- Several users may go if that many are counted. -/
theorem Occupied.commitDecrement (h : Occupied st) {b : Int}
    {e : Sigma fun _ : R.database.NodeId => Int} (hrun : R.commitDecrement b n e st = some st') :
    Occupied st' := by
  have hcount := Tally.count_decrTimes e.1
  have hlast := Tally.decrTimes_erased e.1 e.2.toNat (st.net n).usersConnectionCounts
  unfold AStarRoute.commitDecrement at hrun
  split at hrun
  · cases hrun
  · rename_i k hl
    have hk : (st.net n).usersConnectionCounts.count e.1 = k := by simp [Tally.count, hl]
    rw [hk] at hlast
    split at hrun
    · rename_i hle
      dsimp only at hrun
      split at hrun
      · rename_i hb
        have hpos := hlast.1 hb
        cases hrun
        refine h.setKey (n := n) (r := e.1) (fun m hm => ?_) (fun a ha => ?_) (fun a ha => ?_) ?_
        · simp [hm]
        · simp [NetUsers.countConnectionsOfUser, hcount, ha]
        · simp [ha]
        · simp only [NetUsers.countConnectionsOfUser, hcount, hk, RouterState.withNode_net,
            RouterState.withNet_net, RouterState.withNode_node, RouterState.withNet_node,
            Function.update_self, NodeState.decrementOccupancy, NodeState.setNeedUpdateBatchStamp,
            ↓reduceIte]
          split_ifs <;> omega
      · rename_i hb
        cases hrun
        refine h.setKey (n := n) (r := e.1) (fun m hm => ?_) (fun a ha => ?_) (fun a ha => rfl) ?_
        · simp [hm]
        · simp [NetUsers.countConnectionsOfUser, hcount, ha]
        · have hnot : ¬(1 ≤ k ∧ k ≤ (e.2.toNat : Int)) := fun hh => hb (hlast.2 hh)
          simp only [NetUsers.countConnectionsOfUser, hcount, hk, RouterState.withNet_net,
            RouterState.withNet_node, Function.update_self, ↓reduceIte]
          split_ifs <;> omega
    · cases hrun

end Occupied

/-! ## The nodes of a found path -/

section Path

variable {ρ : Reads R.database.NodeId K} {c : R.database.ConnId} {tid : Nat} {sync : Bool}
  {v : R.database.NodeId}

/-- The number of users that the cost of a child is computed with. -/
def countSourceUses (st : RouterState R.database) (n : R.database.NetId) (sync : Bool)
    (r : R.database.NodeId) : Int :=
  if sync then
    (st.net n).countConnectionsOfUser r - (st.net n).getPreDecrementUser r +
      (st.net n).getPreIncrementUser r
  else (st.net n).countConnectionsOfUser r

/-- A child is pushed only if its net counts no less than zero users of it. -/
theorem countSourceUses_nonneg {t : Bool} {costs : K → K × K}
    (h : R.evaluateChild ρ st c tid sync v t = .visit costs) :
    0 ≤ countSourceUses st (R.database.netOf c) sync v := by
  unfold evaluateChild at h
  dsimp only at h
  split at h
  · cases h
  · rename_i cost hcost
    by_contra hneg
    unfold countSourceUses at hneg
    unfold getNodeCost at hcost
    dsimp only at hcost
    rw [if_pos (not_le.1 hneg)] at hcost
    cases hcost

/-- Whatever its type, a node is entered only if its net counts no less than zero users of it. -/
theorem countSourceUses_of_visit {t : Bool} {costs : K → K × K}
    (h : R.childVerdict ρ st c tid sync v t = .visit costs) :
    0 ≤ countSourceUses st (R.database.netOf c) sync v := by
  unfold childVerdict at h
  split at h
  · cases h
  · cases htype : (R.database.routeNodes v).type <;> simp only [htype] at h
    case wire =>
      split at h
      · cases h
      · exact countSourceUses_nonneg h
    case pinbounce =>
      split at h
      · cases h
      · split at h
        · cases h
        · exact countSourceUses_nonneg h
    case pinfeedI =>
      split at h
      · cases h
      · exact countSourceUses_nonneg h
    all_goals cases h

/-- A sink pin that is entered was taken for the target, or its net counts users of it. -/
theorem count_of_visit {t : Bool} {costs : K → K × K}
    (htype : (R.database.routeNodes v).type = .pinfeedI)
    (h : R.childVerdict ρ st c tid sync v t = .visit costs) :
    t = true ∨ (st.net (R.database.netOf c)).countConnectionsOfUser v ≠ 0 := by
  unfold childVerdict at h
  rw [htype] at h
  dsimp only at h
  split at h
  · cases h
  · split at h
    · cases h
    · rename_i haccess
      by_contra hnot
      rw [not_or, not_not] at hnot
      refine haccess ?_
      simp [isAccessiblePinfeedI, hnot]

/-- The nodes inside a path have passed the verdict, asked with the marks the search found. -/
theorem visit_of_found {marks : R.database.NodeId → Mark R.database.NodeId K} {k : Nat}
    (h : R.search ρ st c tid sync = .found marks k) {fuel : Nat} {p : List R.database.NodeId}
    (ht : BestFirst.trace marks (R.database.source c) fuel (R.database.sink c) = some p)
    (hv : v ∈ p) (hsink : v ≠ R.database.sink c) (hsource : v ≠ R.database.source c) :
    ∃ costs, R.childVerdict ρ st c tid sync v
      (decide ((st.info tid v).isTarget = R.connectionUniqueId st c)) = .visit costs := by
  let P := R.problem ρ st c tid sync
  have hflagged : BestFirst.loop R.queue (P.flagged (st.marks tid)) R.database.children
      (R.database.numNodes + 1) 0 (BestFirst.start R.queue P (st.marks tid)) = .found marks k := by
    rw [BestFirst.loop_flagged (BestFirst.start_flags _), ← R.searchLoop_eq]
    exact h
  obtain ⟨hr, -⟩ := BestFirst.found_route
    (BestFirst.loop_found (BestFirst.start_searching (Q := R.queue) _) hflagged) ht
  obtain ⟨t, costs, hvisit⟩ := ((hr.accepted v hv).resolve_left hsink).resolve_left hsource
  exact ⟨costs, hvisit⟩

/-- A successful attempt saves the path that its search has found. -/
theorem route_found (hnil : (st.conn c).rnodes = [])
    (h : R.routeOneConnection ρ c tid sync st = some (true, st')) :
    ∃ marks k, R.search ρ (R.beginRoute c st) c tid sync = .found marks k ∧
      BestFirst.trace marks (R.database.source c) 9999 (R.database.sink c) =
        some (st'.conn c).rnodes := by
  rcases routeOneConnection_cases h with ⟨hne, -⟩ | ⟨-, marks, k, path, hs, hp, rfl⟩
  · cases hne
  · obtain ⟨s, hconn, hr, -⟩ := commitRoute_conn ρ c sync k
      (appendPath c path ((R.beginRoute c st).withMarks tid marks))
    have hpath : s.rnodes = path := by
      rw [hr]
      simp [appendPath, beginRoute, ConnState.setRoutedThisIter, hnil]
    refine ⟨marks, k, hs, ?_⟩
    rw [hconn, Function.update_self, hpath]
    exact hp

end Path

/-! ## Immediate attempts -/

/-- What a net has entered for a node. -/
def entry (st : RouterState R.database) (n : R.database.NetId) (r : R.database.NodeId) :
    Option Int :=
  (st.net n).usersConnectionCounts.lookup r

variable (R) in
/-- The net of `c` has an entry without users for a node that the search for `c` may go through: the
source, a node that is no sink pin, or a sink pin that carries the stamp of the search as a mark of
the target though it is another connection's. -/
def Mistaken (st : RouterState R.database) (tid : Nat) (c : R.database.ConnId) : Prop :=
  (∃ k ∈ entry st (R.database.netOf c) (R.database.source c), k ≤ 0) ∨
    ∃ r, r ≠ R.database.sink c ∧ entry st (R.database.netOf c) r = some 0 ∧
      ((R.database.routeNodes r).type = .pinfeedI →
        (st.info tid r).isTarget = R.connectionUniqueId st c)

instance (tid : Nat) (c : R.database.ConnId) : Decidable (R.Mistaken st tid c) :=
  inferInstanceAs (Decidable (_ ∨ _))

/-- Every connection holds its sink, by its route or by the reservation. -/
def HoldsSinks (st : RouterState R.database) : Prop :=
  ∀ c, R.database.sink c ∈ R.heldNodes st c

section Immediate

variable {ρ : Reads R.database.NodeId K} {c : R.database.ConnId} {tid : Nat} {sync : Bool}
  {n : R.database.NetId} {r : R.database.NodeId} {st₁ : RouterState R.database}

theorem count_of_entry {k : Int} (h : entry st n r = some k) :
    (st.net n).countConnectionsOfUser r = k := by
  unfold entry at h
  simp [NetUsers.countConnectionsOfUser, Tally.count, h]

/-- A user who goes leaves no entry of zero: the last one erases it. -/
theorem zero_of_leaveAll : ∀ (l : List R.database.NodeId) {st : RouterState R.database},
    entry (l.foldl (R.leaveNode ρ n) st) n r = some 0 → r ∉ l ∧ entry st n r = some 0
  | [], st, h => ⟨List.not_mem_nil, h⟩
  | a :: l, st, h => by
    obtain ⟨hl, hzero⟩ := zero_of_leaveAll l h
    have hlook := Tally.lookup_decr (st.net n).usersConnectionCounts a r
    simp only [entry, leaveNode, NetUsers.decrementUser, RouterState.withNode_net,
      RouterState.withNet_net, Function.update_self, hlook] at hzero
    by_cases e : r = a
    · rw [if_pos e] at hzero
      split at hzero
      · cases hzero
      · have := Option.some.inj hzero
        omega
    · rw [if_neg e] at hzero
      exact ⟨List.not_mem_cons_of_ne_of_not_mem e hl, hzero⟩

theorem zero_of_ripup (hrip : R.ripup ρ c false st = some st₁)
    (h : entry st₁ (R.database.netOf c) r = some 0) :
    r ∉ R.heldNodes st c ∧ entry st (R.database.netOf c) r = some 0 := by
  simp only [ripup] at hrip
  split at hrip
  · cases hrip
  · simp only [Bool.false_eq_true, ↓reduceIte, Option.map_some, Option.some.injEq] at hrip
    subst hrip
    exact zero_of_leaveAll (R.heldNodes st c) h

/-- A search that goes through an entry of zero was mistaken in it. -/
theorem mistaken_of_found (hrip : R.ripup ρ c sync st = some st₁)
    {marks : R.database.NodeId → Mark R.database.NodeId K} {k fuel : Nat}
    (h : R.search ρ (R.beginRoute c st₁) c tid sync = .found marks k)
    {p : List R.database.NodeId}
    (ht : BestFirst.trace marks (R.database.source c) fuel (R.database.sink c) = some p)
    (hr : r ∈ p) (hsink : r ≠ R.database.sink c)
    (hbefore : entry st (R.database.netOf c) r = some 0)
    (hafter : entry st₁ (R.database.netOf c) r = some 0) : R.Mistaken st tid c := by
  by_cases hsource : r = R.database.source c
  · subst hsource
    exact .inl ⟨0, hbefore, le_refl 0⟩
  · refine .inr ⟨r, hsink, hbefore, fun htype => ?_⟩
    obtain ⟨hctl, hinfo, -⟩ := ripup_frame hrip
    have huid : R.connectionUniqueId (R.beginRoute c st₁) c = R.connectionUniqueId st c := by
      simp only [connectionUniqueId, beginRoute, RouterState.withConn_ctl, hctl]
    have hmark : (R.beginRoute c st₁).info = st.info := hinfo
    rw [← huid, ← hmark]
    obtain ⟨costs, hvisit⟩ := visit_of_found h ht hr hsink hsource
    rcases count_of_visit htype hvisit with htarget | hne
    · exact of_decide_eq_true htarget
    · exact absurd (count_of_entry hafter) hne

/-- A path goes through no entry of zero. -/
theorem entry_ne_zero (hheld : R.database.sink c ∈ R.heldNodes st c)
    (hnot : ¬R.Mistaken st tid c) (hrip : R.ripup ρ c false st = some st₁)
    {marks : R.database.NodeId → Mark R.database.NodeId K} {k fuel : Nat}
    (h : R.search ρ (R.beginRoute c st₁) c tid false = .found marks k)
    {p : List R.database.NodeId}
    (ht : BestFirst.trace marks (R.database.source c) fuel (R.database.sink c) = some p)
    (hr : r ∈ p) : entry st₁ (R.database.netOf c) r ≠ some 0 := by
  intro hzero
  obtain ⟨hfree, hbefore⟩ := zero_of_ripup hrip hzero
  have hsink : r ≠ R.database.sink c := by
    rintro rfl
    exact hfree hheld
  exact hnot (mistaken_of_found hrip h ht hr hsink hbefore hzero)

/-- The users of a path come, each to a node of its own. -/
theorem Occupied.useAll (ρ : Reads R.database.NodeId K) : ∀ (l : List R.database.NodeId)
    {st : RouterState R.database}, Occupied st → l.Nodup → (∀ r ∈ l, entry st n r ≠ some 0) →
    Occupied (l.foldl (R.useNode ρ n) st)
  | [], st, h, _, _ => h
  | a :: l, st, h, hnd, hfree => by
    obtain ⟨ha, hl⟩ := List.nodup_cons.1 hnd
    refine Occupied.useAll ρ l (h.useNode ρ (hfree a List.mem_cons_self)) hl fun r hr => ?_
    have hne : r ≠ a := fun e => ha (e ▸ hr)
    have hlook := Tally.lookup_incr (st.net n).usersConnectionCounts a r
    simp only [entry, AStarRoute.useNode, NetUsers.incrementUser, RouterState.withNode_net,
      RouterState.withNet_net, Function.update_self, hlook, hne, ↓reduceIte]
    exact hfree r (List.mem_cons_of_mem a hr)

theorem Occupied.ripup (h : Occupied st) (hrip : R.ripup ρ c false st = some st') :
    Occupied st' := by
  simp only [AStarRoute.ripup] at hrip
  split at hrip
  · cases hrip
  · simp only [Bool.false_eq_true, ↓reduceIte, Option.map_some, Option.some.injEq] at hrip
    subst hrip
    have hfold : Occupied ((R.heldNodes st c).foldl (R.leaveNode ρ (R.database.netOf c)) st) :=
      List.foldlRecOn _ _ h fun s hs r _ => hs.leaveNode ρ r
    exact hfold.congr (fun _ => rfl) fun _ => rfl

/-- What an attempt does to the routes. -/
theorem Attempt.conn (h : R.Attempt ρ c tid sync st st') :
    (∀ d, d ≠ c → st'.conn d = st.conn d) ∧
      ((st'.conn c).rnodes = [] ∨ R.database.IsPath c (st'.conn c).rnodes) := by
  obtain ⟨st₁, success, st₂, hrip, hroute, hsame⟩ := h
  have hconn := ripup_conn hrip
  rw [hsame.conn]
  cases success with
  | true =>
    obtain ⟨hp, -, hother⟩ := reroute_conn hrip hroute
    exact ⟨hother, .inr hp⟩
  | false =>
    obtain ⟨marks, rfl⟩ := routeOneConnection_false hroute
    refine ⟨fun d hd => ?_, .inl ?_⟩
    · simp [beginRoute, hconn, hd]
    · simp [beginRoute, hconn, ConnState.setRoutedThisIter, ConnState.setRouted,
        ConnState.resetRoute]

theorem HoldsSinks.attempt (h : HoldsSinks st) (hatt : R.Attempt ρ c tid sync st st') :
    HoldsSinks st' := by
  obtain ⟨hother, hc⟩ := hatt.conn
  intro d
  by_cases e : d = c
  · subst e
    rcases hc with hnil | hp
    · simp [heldNodes, hnil]
    · rw [heldNodes_of_isPath hp]
      exact hp.sink_mem
  · have hsame : R.heldNodes st' d = R.heldNodes st d := heldNodes_congr (by rw [hother d e])
    rw [hsame]
    exact h d

/-- **An immediate attempt keeps the occupancies right**, whether it succeeds or fails. -/
theorem Occupied.attempt (h : Occupied st) (hheld : HoldsSinks st) (hnot : ¬R.Mistaken st tid c)
    (hatt : R.Attempt ρ c tid false st st') : Occupied st' := by
  obtain ⟨st₁, success, st₂, hrip, hroute, hsame⟩ := hatt
  suffices h₂ : Occupied st₂ from
    h₂.congr (fun m => by rw [hsame.net]) fun r => by rw [hsame.node]
  have h₁ := h.ripup hrip
  rcases routeOneConnection_cases hroute with ⟨-, f, -, rfl⟩ | ⟨-, marks, k, path, hs, hp, rfl⟩
  · exact h₁.congr (fun _ => rfl) fun _ => rfl
  · have hnil : (st₁.conn c).rnodes = [] := by
      rw [ripup_conn hrip, Function.update_self]
      rfl
    have hstart : Occupied ((appendPath c path ((R.beginRoute c st₁).withMarks tid marks)).withConn c
        (((appendPath c path ((R.beginRoute c st₁).withMarks tid marks)).conn c).setRouted true)) :=
      h₁.congr (fun _ => rfl) fun _ => rfl
    have hfree : ∀ r ∈ path, entry st₁ (R.database.netOf c) r ≠ some 0 := fun r hr =>
      entry_ne_zero (hheld c) hnot hrip hs hp hr
    have hall := hstart.useAll (n := R.database.netOf c) ρ path (isPath_of_found hs hp).nodup hfree
    simpa [commitRoute, updateUsersAndPresentCongestionCost, appendPath, beginRoute,
      ConnState.setRouted, ConnState.setRoutedThisIter, hnil] using hall

end Immediate

/-! ## Batches -/

/-- In the routing phase, a net that is counted down has so many users, and one that is counted up has
some users or no entry. -/
structure Collecting (st : RouterState R.database) (n : R.database.NetId) : Prop where
  leaving : ∃ d, Tally.Tallies (st.net n).userConnectionToDecrement d
  entering : ∀ r ∈ (st.net n).userConnectionToIncrement, ∀ k ∈ entry st n r, 1 ≤ k

section Collecting

variable {ρ : Reads R.database.NodeId K} {c : R.database.ConnId} {tid : Nat}
  {n : R.database.NetId} {st₁ : RouterState R.database}

theorem Collecting.congr (h : Collecting st n) (hnet : st'.net n = st.net n) : Collecting st' n := by
  refine ⟨?_, fun r hr k hk => ?_⟩
  · rw [hnet]
    exact h.leaving
  · rw [hnet] at hr
    rw [entry, hnet] at hk
    exact h.entering r hr k hk

theorem collecting_clearPreUsers (n : R.database.NetId) (st : RouterState R.database) :
    Collecting (R.clearPreUsers n st) n := by
  refine ⟨⟨fun _ => 0, ?_⟩, fun r hr => ?_⟩
  · simpa [clearPreUsers, NetUsers.clearPreDecrement, NetUsers.clearPreIncrement] using
      Tally.tallies_empty
  · simp [clearPreUsers, NetUsers.clearPreDecrement, NetUsers.clearPreIncrement] at hr

/-- A deferred rip-up goes on only while there are users left to go. -/
theorem one_le_of_preDecrement : ∀ {l : List R.database.NodeId} {st st' : RouterState R.database}
    {d : R.database.NodeId → Nat}, Tally.Tallies (st.net n).userConnectionToDecrement d →
    runAll (R.preDecrement n) l st = some st' →
    ∀ r ∈ l, 1 ≤ (st.net n).countConnectionsOfUser r
  | [], _, _, _, _, _, r, hr => absurd hr List.not_mem_nil
  | a :: l, st, st', d, hd, h, r, hr => by
    rw [runAll_cons, Option.bind_eq_some_iff] at h
    obtain ⟨t, ht, h⟩ := h
    obtain ⟨u, hu, rfl⟩ := Option.map_eq_some_iff.1 ht
    have hmore := (hd.incr a).1
    simp only [NetUsers.preDecrementUser] at hu
    split at hu
    · rename_i hle
      cases hu
      rcases List.mem_cons.1 hr with rfl | hr
      · rw [hmore.count_eq, Function.update_self] at hle
        unfold NetUsers.countConnectionsOfUser
        omega
      · have hnext : ∀ u, (st.withNet n u).net n = u := fun u => by
          rw [RouterState.withNet_net, Function.update_self]
        have hrest := one_le_of_preDecrement (by rw [hnext]; exact hmore) h r hr
        rw [hnext] at hrest
        exact hrest
    · cases hu

theorem one_le_of_ripup (h : Collecting st (R.database.netOf c))
    (hrip : R.ripup ρ c true st = some st₁) {r : R.database.NodeId} (hr : r ∈ R.heldNodes st c) :
    1 ≤ (st.net (R.database.netOf c)).countConnectionsOfUser r := by
  obtain ⟨d, hd⟩ := h.leaving
  simp only [ripup] at hrip
  split at hrip
  · cases hrip
  · obtain ⟨t, ht, -⟩ := Option.map_eq_some_iff.1 hrip
    exact one_le_of_preDecrement hd ht r hr

/-- A deferred attempt notes that its path is entered where there are users, or no entry. -/
theorem Collecting.path (h : Collecting st (R.database.netOf c))
    (hheld : R.database.sink c ∈ R.heldNodes st c) (hnot : ¬R.Mistaken st tid c)
    (hrip : R.ripup ρ c true st = some st₁)
    {marks : R.database.NodeId → Mark R.database.NodeId K} {k fuel : Nat}
    (hs : R.search ρ (R.beginRoute c st₁) c tid true = .found marks k)
    {p : List R.database.NodeId}
    (ht : BestFirst.trace marks (R.database.source c) fuel (R.database.sink c) = some p)
    {r : R.database.NodeId} (hr : r ∈ p)
    (hnew : r ∉ (st.net (R.database.netOf c)).userConnectionToIncrement) {j : Int}
    (hj : entry st (R.database.netOf c) r = some j) : 1 ≤ j := by
  obtain ⟨d, hd⟩ := h.leaving
  have hnet : (R.beginRoute c st₁).net (R.database.netOf c) =
      (st.net (R.database.netOf c)).leaving (R.heldNodes st c) := by
    simp [beginRoute, (ripup_net hrip).2]
  by_cases hsink : r = R.database.sink c
  · subst hsink
    rw [← count_of_entry hj]
    exact one_le_of_ripup h hrip hheld
  by_contra hlt
  by_cases hsource : r = R.database.source c
  · subst hsource
    exact hnot (.inl ⟨j, hj, by omega⟩)
  obtain ⟨costs, hvisit⟩ := visit_of_found hs ht hr hsink hsource
  -- nobody has come in this phase, and those who have gone were counted
  have hcount := countSourceUses_of_visit hvisit
  have hinc : (st.net (R.database.netOf c)).userConnectionToIncrement.count r = 0 := by
    simp [Tally.count, AList.lookup_eq_none.2 hnew]
  have huses : countSourceUses (R.beginRoute c st₁) (R.database.netOf c) true r =
      j - ((d r + (R.heldNodes st c).count r : Nat) : Int) := by
    simp only [countSourceUses, ↓reduceIte, hnet, NetUsers.getPreDecrementUser,
      NetUsers.getPreIncrementUser, NetUsers.leaving, NetUsers.countConnectionsOfUser,
      hd.incrAll.count_eq, hinc]
    rw [show (st.net (R.database.netOf c)).usersConnectionCounts.count r = j from
      count_of_entry hj, add_zero]
  rw [huses] at hcount
  obtain rfl : j = 0 := by omega
  have hzero : entry st₁ (R.database.netOf c) r = some 0 := by
    rw [entry, show st₁.net (R.database.netOf c) = _ from hnet]
    exact hj
  exact hnot (mistaken_of_found hrip hs ht hr hsink hj hzero)

/-- A deferred attempt notes what is left and what is entered. -/
theorem Attempt.net (h : R.Attempt ρ c tid true st st') :
    st'.net = Function.update st.net (R.database.netOf c)
      (((st.net (R.database.netOf c)).leaving (R.heldNodes st c)).entering
        (st'.conn c).rnodes) := by
  obtain ⟨st₁, success, st₂, hrip, hroute, hsame⟩ := h
  rw [hsame.net, hsame.conn]
  cases success with
  | true => exact (reroute_net hrip hroute).2
  | false =>
    obtain ⟨marks, rfl⟩ := routeOneConnection_false hroute
    have hnil : (((R.beginRoute c st₁).withMarks tid marks).conn c).rnodes = [] := by
      simp [beginRoute, ripup_conn hrip, ConnState.setRoutedThisIter, ConnState.setRouted,
        ConnState.resetRoute]
    rw [hnil]
    exact (ripup_net hrip).2

theorem Attempt.users (h : R.Attempt ρ c tid true st st') (m : R.database.NetId) :
    (st'.net m).usersConnectionCounts = (st.net m).usersConnectionCounts := by
  rw [h.net]
  by_cases e : m = R.database.netOf c
  · subst e
    rw [Function.update_self]
    rfl
  · rw [Function.update_of_ne e]

/-- **A deferred attempt keeps what is collected in order**, whether it succeeds or fails. -/
theorem Collecting.attempt (h : Collecting st (R.database.netOf c))
    (hheld : R.database.sink c ∈ R.heldNodes st c) (hnot : ¬R.Mistaken st tid c)
    (hatt : R.Attempt ρ c tid true st st') : Collecting st' (R.database.netOf c) := by
  have hnet := hatt.net
  refine ⟨?_, fun r hr k hk => ?_⟩
  · obtain ⟨d, hd⟩ := h.leaving
    rw [hnet, Function.update_self]
    exact ⟨_, hd.incrAll⟩
  · rw [entry, hatt.users] at hk
    by_cases hold : r ∈ (st.net (R.database.netOf c)).userConnectionToIncrement
    · exact h.entering r hold k hk
    rw [hnet, Function.update_self] at hr
    have hpath := (Tally.mem_incrAll.1 hr).resolve_left hold
    obtain ⟨st₁, success, st₂, hrip, hroute, hsame⟩ := hatt
    have hnil : (st₁.conn c).rnodes = [] := by
      rw [ripup_conn hrip, Function.update_self]
      rfl
    rw [hsame.conn] at hpath
    cases success with
    | true =>
      obtain ⟨marks, j, hs, ht⟩ := route_found hnil hroute
      exact h.path hheld hnot hrip hs ht hpath hold hk
    | false =>
      obtain ⟨marks, rfl⟩ := routeOneConnection_false hroute
      simp [beginRoute, ConnState.setRoutedThisIter, hnil] at hpath

end Collecting

/-- What holds between the steps of a run. -/
structure Tracked (st : RouterState R.database) : Prop where
  occupied : Occupied st
  holdsSinks : HoldsSinks st

/-- What holds in the routing phase, where the nets of `P` have been routed. -/
structure Collected (P : R.database.NetId → Prop) (st : RouterState R.database) : Prop
    extends Tracked st where
  collecting : ∀ n, P n → Collecting st n

section Routing

variable {P : R.database.NetId → Prop} {c : R.database.ConnId} {tid : Nat} {n : R.database.NetId}

theorem HoldsSinks.congr (h : HoldsSinks st)
    (hconn : ∀ c, (st'.conn c).rnodes = (st.conn c).rnodes) : HoldsSinks st' := by
  intro c
  have hsame : R.heldNodes st' c = R.heldNodes st c := heldNodes_congr (hconn c)
  rw [hsame]
  exact h c

theorem Tracked.congr (h : Tracked st)
    (hnet : ∀ m, (st'.net m).usersConnectionCounts = (st.net m).usersConnectionCounts)
    (hocc : ∀ r, (st'.node r).occupancy = (st.node r).occupancy)
    (hconn : ∀ c, (st'.conn c).rnodes = (st.conn c).rnodes) : Tracked st' :=
  ⟨h.occupied.congr hnet hocc, h.holdsSinks.congr hconn⟩

theorem Collected.attempt {ρ : Reads R.database.NodeId K} (h : Collected P st)
    (hP : P (R.database.netOf c)) (hnot : ¬R.Mistaken st tid c)
    (hatt : R.Attempt ρ c tid true st st') : Collected P st' := by
  have hnode := hatt.frame.1
  refine ⟨⟨h.occupied.congr hatt.users fun r => by rw [hnode], h.holdsSinks.attempt hatt⟩,
    fun m hm => ?_⟩
  by_cases e : m = R.database.netOf c
  · subst e
    exact (h.collecting _ hP).attempt (h.holdsSinks c) hnot hatt
  · exact (h.collecting m hm).congr (by rw [hatt.net, Function.update_of_ne e])

theorem Collected.routeWorkerConnection (h : Collected P st) (hP : P (R.database.netOf c))
    (hcall : R.shouldRoute .own st c = true → ¬R.Mistaken st tid c)
    (hstep : R.routeWorkerConnection tid c st = some st') : Collected P st' := by
  have hflag : Collected P (st.withConn c ((st.conn c).setRoutedThisIter false)) :=
    ⟨h.toTracked.congr (fun _ => rfl) (fun _ => rfl) fun d => (setRoutedThisIter_conn st c d false).1,
      fun m hm => (h.collecting m hm).congr rfl⟩
  rcases routeWorkerConnection_attempt hstep with rfl | ⟨hroute, hatt⟩
  · exact hflag
  · exact hflag.attempt hP (hcall hroute) hatt

/-- A net is routed, with its connections in turn. -/
theorem Collected.routeWorkerNet (h : Collected P st)
    (hcall : ∀ cs c ds s, (R.database.nets n).indirectConns = cs ++ c :: ds →
      runAll (R.routeWorkerConnection tid) cs (R.clearPreUsers n st) = some s →
      R.shouldRoute .own s c = true → ¬R.Mistaken s tid c)
    (hstep : R.routeWorkerNet tid n st = some st') : Collected (fun m => P m ∨ m = n) st' := by
  obtain ⟨t, ht, rfl⟩ := Option.map_eq_some_iff.1 hstep
  have hclear : Collected (fun m => P m ∨ m = n) (R.clearPreUsers n st) := by
    refine ⟨h.toTracked.congr (fun m => ?_) (fun _ => rfl) fun _ => rfl, fun m hm => ?_⟩
    · by_cases e : m = n
      · subst e
        simp [clearPreUsers, NetUsers.clearPreDecrement, NetUsers.clearPreIncrement]
      · simp [clearPreUsers, e]
    · by_cases e : m = n
      · subst e
        exact collecting_clearPreUsers m st
      · exact (h.collecting m (hm.resolve_right e)).congr (by simp [clearPreUsers, e])
  have hloop : Collected (fun m => P m ∨ m = n) t := by
    refine runAll_reached (I := fun _ s => Collected (fun m => P m ∨ m = n) s)
      (fun cs c ds s u hconns hs hcol hu => ?_) hclear ht
    have hnet : R.database.netOf c = n := R.database.netOf_eq (by rw [hconns]; simp)
    exact hcol.routeWorkerConnection (.inr hnet) (hcall cs c ds s hconns hs) hu
  exact ⟨hloop.toTracked.congr (fun _ => rfl) (fun _ => rfl) fun _ => rfl,
    fun m hm => (hloop.collecting m hm).congr rfl⟩

/-- **The routing phase of a batch**, with failed attempts. -/
theorem Tracked.routing (h : Tracked st) {routing : List (Nat × R.database.NetId)}
    (hcall : ∀ tid c s, R.BatchCall routing st tid c s → R.shouldRoute .own s c = true →
      ¬R.Mistaken s tid c)
    (hrun : runAll (fun p => R.routeWorkerNet p.1 p.2) routing st = some st') :
    Collected (fun m => m ∈ routing.map Prod.snd) st' := by
  refine runAll_reached (I := fun pre s => Collected (fun m => m ∈ pre.map Prod.snd) s)
    (fun pre p post s t hsched hs hcol ht => ?_) ⟨h, fun m hm => absurd hm List.not_mem_nil⟩ hrun
  have hnet := hcol.routeWorkerNet (fun cs c ds u hconns hu => hcall p.1 c u
    ⟨pre, p.2, post, cs, ds, s, hsched, hconns, hs, hu⟩) ht
  simpa using hnet

end Routing

section Merging

variable {n : R.database.NetId} {b : Int}

/-- The entries of a map are merged, each at a node of its own. -/
theorem Occupied.increments : ∀ (es : List (Sigma fun _ : R.database.NodeId => Int))
    {st : RouterState R.database}, Occupied st → es.NodupKeys →
    (∀ e ∈ es, ∀ k ∈ entry st n e.1, 1 ≤ k) →
    Occupied (es.foldl (fun st e => R.commitIncrement b n e st) st)
  | [], st, h, _, _ => h
  | e :: es, st, h, hnd, hcount => by
    obtain ⟨he, hes⟩ := List.nodupKeys_cons.1 hnd
    refine Occupied.increments es (h.commitIncrement (hcount e List.mem_cons_self)) hes
      fun x hx k hk => ?_
    have hne : x.1 ≠ e.1 := fun hxe => he (hxe ▸ List.mem_keys_of_mem hx)
    have hlook := Tally.lookup_incrTimes e.1 x.1 e.2.toNat (st.net n).usersConnectionCounts
    rw [if_neg fun hand => hne hand.1] at hlook
    have hsame : entry (R.commitIncrement b n e st) n x.1 = entry st n x.1 := by
      unfold entry AStarRoute.commitIncrement
      dsimp only
      split <;> simpa using hlook
    rw [hsame] at hk
    exact hcount x (List.mem_cons_of_mem e hx) k hk

theorem Occupied.updateNet (h : Occupied st) (hcol : Collecting st n)
    (hrun : R.updateNet n st = some st') : Occupied st' := by
  have hinc : Occupied (R.updatePreIncrement st.ctl.currentBatchStamp n st) :=
    Occupied.increments _ h (st.net n).userConnectionToIncrement.nodupKeys
      fun e he => hcol.entering e.1 (AList.mem_keys.2 (List.mem_keys_of_mem he))
  exact runAll_invariant (I := Occupied) (fun e _ s t hs ht => hs.commitDecrement ht) hinc hrun

/-- **The second phase**, with every net once. -/
theorem Collected.merging {P : R.database.NetId → Prop} (h : Collected P st)
    {commits : List (Nat × R.database.NetId)} (hnd : (commits.map Prod.snd).Nodup)
    (hP : ∀ p ∈ commits, P p.2)
    (hrun : runAll (fun p => R.updateNet p.2) commits st = some st') : Tracked st' := by
  refine (runAll_reached (I := fun pre s => Tracked s ∧
      ∀ m, m ∉ pre.map Prod.snd → s.net m = st.net m) (fun pre p post s t hsched _ hs ht => ?_)
    ⟨h.toTracked, fun _ _ => rfl⟩ hrun).1
  obtain ⟨htracked, hwait⟩ := hs
  have hp : p.2 ∉ pre.map Prod.snd := by
    rw [hsched, List.map_append, List.map_cons] at hnd
    exact fun hmem => (List.nodup_append.1 hnd).2.2 _ hmem _ List.mem_cons_self rfl
  have hcol : Collecting s p.2 := (h.collecting p.2 (hP p (by rw [hsched]; simp))).congr (hwait _ hp)
  have hmoved := updateNet_countsOnly ht
  refine ⟨⟨htracked.occupied.updateNet hcol ht, htracked.holdsSinks.congr fun c => ?_⟩,
    fun m hm => ?_⟩
  · rw [hmoved.conn]
  · simp only [List.map_append, List.map_cons, List.map_nil, List.mem_append, List.mem_singleton,
      not_or] at hm
    rw [hmoved.other m hm.2, hwait m hm.1]

end Merging

end AStarRoute

end Potter
