import Potter.Route.BatchAccounting

/-!
# What a failed attempt does to the accounting

A rip-up releases what its connection holds: the route, or the reservation of the sink. When the
search that follows fails, the connection has no route and the source does not reserve the sink
again. From then on its net counts one user of the sink too few (`FailedAttempt.released`), in
both disciplines. The next rip-up releases the reservation that is not there: it drives the count
below zero when it works at once, and stops the program when it works for a barrier.
-/

namespace Potter

open Lib

namespace AStarRoute

variable {K : Type} [Arith K] {R : AStarRoute K} {st st' : RouterState R.database}

/-! ## The users of a node besides one connection -/

/-- The number of connections that use node `r`, in the net of `c` and other than `c`. -/
def othersUsing (st : RouterState R.database) (c : R.database.ConnId) (r : R.database.NodeId) :
    Nat :=
  ((R.database.nets (R.database.netOf c)).indirectConns.erase c).countP fun d =>
    decide (Uses st d r)

theorem connectionsUsing_netOf (st : RouterState R.database) (c : R.database.ConnId)
    (r : R.database.NodeId) :
    connectionsUsing st (R.database.netOf c) r =
      othersUsing st c r + if Uses st c r then 1 else 0 := by
  rw [connectionsUsing, (List.perm_cons_erase (R.database.mem_conns_netOf c)).countP_eq,
    List.countP_cons]
  simp only [decide_eq_true_eq]
  rfl

theorem othersUsing_congr {c : R.database.ConnId} (h : ∀ d, d ≠ c → st'.conn d = st.conn d)
    (r : R.database.NodeId) : othersUsing st' c r = othersUsing st c r := by
  refine List.countP_congr fun d hd => ?_
  have hne := ((R.database.nodup_indirectConns _).mem_erase_iff.1 hd).1
  have hu : Uses st' d r ↔ Uses st d r := by simp only [Uses, h d hne]
  rw [decide_eq_true_iff, decide_eq_true_iff, hu]

theorem othersUsing_eq_zero {c : R.database.ConnId} {r : R.database.NodeId}
    (h : ∀ d, R.database.netOf d = R.database.netOf c → d ≠ c → ¬ Uses st d r) :
    othersUsing st c r = 0 := by
  refine List.countP_eq_zero.2 fun d hd => ?_
  obtain ⟨hne, hmem⟩ := (R.database.nodup_indirectConns _).mem_erase_iff.1 hd
  simpa using h d (R.database.netOf_eq hmem) hne

/-! ## Counts, also below zero -/

section Counting

variable {n : R.database.NetId} {ρ : Reads R.database.NodeId K} {a : R.database.NodeId}

theorem count_leaveAll : ∀ (l : List R.database.NodeId) (st : RouterState R.database),
    ((l.foldl (R.leaveNode ρ n) st).net n).countConnectionsOfUser a =
      (st.net n).countConnectionsOfUser a - l.count a
  | [], st => by simp
  | r :: l, st => by
    have hr : ((R.leaveNode ρ n st r).net n).countConnectionsOfUser a =
        (st.net n).countConnectionsOfUser a - if a = r then 1 else 0 := by
      simpa [leaveNode, NetUsers.countConnectionsOfUser, NetUsers.decrementUser] using
        Tally.count_decr (st.net n).usersConnectionCounts r a
    rw [List.foldl_cons, count_leaveAll l, hr]
    by_cases ha : a = r
    · subst ha
      rw [if_pos rfl, List.count_cons_self]
      push_cast
      ring
    · rw [if_neg ha, List.count_cons_of_ne (Ne.symm ha), sub_zero]

/-- An immediate rip-up subtracts what its connection holds. -/
theorem count_ripup {c : R.database.ConnId} (h : R.ripup ρ c false st = some st')
    (a : R.database.NodeId) :
    (st'.net (R.database.netOf c)).countConnectionsOfUser a =
      (st.net (R.database.netOf c)).countConnectionsOfUser a - (R.heldNodes st c).count a := by
  simp only [ripup] at h
  split at h
  · cases h
  · cases h
    exact count_leaveAll _ st

theorem count_commitDecrement {b : Int} {e : Sigma fun _ : R.database.NodeId => Int}
    (h : R.commitDecrement b n e st = some st') :
    st'.conn = st.conn ∧ (st'.net n).countConnectionsOfUser a =
      (st.net n).countConnectionsOfUser a - if a = e.1 then (e.2.toNat : Int) else 0 := by
  have hc := Tally.count_decrTimes e.1 a e.2.toNat (st.net n).usersConnectionCounts
  simp only [commitDecrement] at h
  split at h
  · cases h
  · split at h
    · split at h <;> cases h
      · exact ⟨rfl, by simpa [NetUsers.countConnectionsOfUser] using hc⟩
      · exact ⟨rfl, by simpa [NetUsers.countConnectionsOfUser] using hc⟩
    · cases h

theorem count_decrements {b : Int} : ∀ {es : List (Sigma fun _ : R.database.NodeId => Int)}
    {st st' : RouterState R.database}, runAll (R.commitDecrement b n) es st = some st' →
    st'.conn = st.conn ∧ (st'.net n).countConnectionsOfUser a =
      (st.net n).countConnectionsOfUser a - Tally.entryCount es a
  | [], st, st', h => by
    cases h
    exact ⟨rfl, by simp [Tally.entryCount]⟩
  | e :: es, st, st', h => by
    rw [runAll_cons, Option.bind_eq_some_iff] at h
    obtain ⟨t, ht, h⟩ := h
    obtain ⟨hconn, hcount⟩ := count_commitDecrement (a := a) ht
    obtain ⟨hconn', hcount'⟩ := count_decrements h
    refine ⟨hconn'.trans hconn, ?_⟩
    rw [hcount', hcount, Tally.entryCount]
    split <;> push_cast <;> ring

end Counting

/-! ## Failed attempts -/

variable (R) in
/-- Connection `c` was ripped up and could not be routed; for a barrier, the changes of its net were
merged. -/
def FailedAttempt (ρ : Reads R.database.NodeId K) (c : R.database.ConnId) (tid : Nat) (sync : Bool)
    (st st' : RouterState R.database) : Prop :=
  ∃ st₁ st₂, R.ripup ρ c sync st = some st₁ ∧
    R.routeOneConnection ρ c tid sync st₁ = some (false, st₂) ∧
    (if sync then R.updateNet (R.database.netOf c) st₂ else some st₂) = some st'

section FailedAttempt

variable {ρ : Reads R.database.NodeId K} {c : R.database.ConnId} {tid : Nat} {sync : Bool}

/-- The maps of a net hold nothing, as a worker leaves them before it routes the net. -/
def ClearPreUsers (st : RouterState R.database) (n : R.database.NetId) : Prop :=
  (st.net n).userConnectionToDecrement = ∅ ∧ (st.net n).userConnectionToIncrement = ∅

instance (n : R.database.NetId) : Decidable (ClearPreUsers st n) :=
  decidable_of_iff ((st.net n).userConnectionToDecrement.entries = (∅ : Tally _).entries ∧
    (st.net n).userConnectionToIncrement.entries = (∅ : Tally _).entries)
    (and_congr AList.ext_iff.symm AList.ext_iff.symm)

/-- The merge of a net that has only rip-ups noted. -/
theorem updateNet_of_leaving {st₂ : RouterState R.database} {n : R.database.NetId}
    {l : List R.database.NodeId} (hclear : ClearPreUsers st n)
    (hnet : st₂.net n = (st.net n).leaving l) (h : R.updateNet n st₂ = some st')
    (a : R.database.NodeId) :
    st'.conn = st₂.conn ∧ (st'.net n).countConnectionsOfUser a =
      (st.net n).countConnectionsOfUser a - l.count a := by
  have hinc : (st₂.net n).userConnectionToIncrement.entries = [] := by
    rw [hnet]
    simp [NetUsers.leaving, hclear.2]
  rw [updateNet, updatePreIncrement, hinc, List.foldl_nil] at h
  obtain ⟨hconn, hcount⟩ := count_decrements (a := a) h
  refine ⟨hconn, ?_⟩
  have htal : Tally.Tallies (st₂.net n).userConnectionToDecrement fun r => 0 + l.count r := by
    rw [hnet]
    simpa [NetUsers.leaving, hclear.1] using Tally.tallies_empty.incrAll (l := l)
  rw [hcount, htal.entryCount, Nat.zero_add, hnet]
  rfl

/-- **A failed attempt releases what its connection held and reserves nothing.** -/
theorem FailedAttempt.released (h : FailedAttempt R ρ c tid sync st st')
    (hclear : sync = true → ClearPreUsers st (R.database.netOf c)) :
    (st'.conn c).rnodes = [] ∧ (st'.conn c).isRouted = false ∧
      (∀ d, d ≠ c → st'.conn d = st.conn d) ∧
      ∀ a, (st'.net (R.database.netOf c)).countConnectionsOfUser a =
        (st.net (R.database.netOf c)).countConnectionsOfUser a - (R.heldNodes st c).count a := by
  obtain ⟨st₁, st₂, hrip, hroute, hmerge⟩ := h
  have hconn₁ := ripup_conn hrip
  obtain ⟨marks, rfl⟩ := routeOneConnection_false hroute
  have hconn : st'.conn = ((R.beginRoute c st₁).withMarks tid marks).conn ∧
      ∀ a, (st'.net (R.database.netOf c)).countConnectionsOfUser a =
        (st.net (R.database.netOf c)).countConnectionsOfUser a - (R.heldNodes st c).count a := by
    cases sync with
    | false =>
      cases hmerge
      have hcount := count_ripup hrip
      exact ⟨rfl, hcount⟩
    | true =>
      have hnet : ((R.beginRoute c st₁).withMarks tid marks).net (R.database.netOf c) =
          (st.net (R.database.netOf c)).leaving (R.heldNodes st c) := by
        simp [beginRoute, (ripup_net hrip).2]
      have hm := updateNet_of_leaving (hclear rfl) hnet hmerge
      exact ⟨(hm (R.database.sink c)).1, fun a => (hm a).2⟩
  have hc : st'.conn c = ((st.conn c).resetRoute.setRouted false).setRoutedThisIter true := by
    rw [hconn.1]
    simp [beginRoute, hconn₁]
  refine ⟨by rw [hc]; rfl, by rw [hc]; rfl, fun d hd => ?_, hconn.2⟩
  rw [hconn.1]
  simp [beginRoute, hconn₁, hd]

/-- What a connection without a route holds is its sink. -/
theorem count_heldNodes_sink (h : (st.conn c).rnodes = []) :
    (R.heldNodes st c).count (R.database.sink c) = 1 := by
  simp [heldNodes, h]

/-- A deferred rip-up of a connection without route and reservation stops the program. -/
theorem ripup_none_of_count_le (hnil : (st.conn c).rnodes = [])
    (hcount : (st.net (R.database.netOf c)).countConnectionsOfUser (R.database.sink c) ≤ 0) :
    R.ripup ρ c true (R.clearPreUsers (R.database.netOf c) st) = none := by
  have h1 : ((∅ : Tally R.database.NodeId).incr (R.database.sink c)).1.count
      (R.database.sink c) = 1 := by
    simpa using (Tally.tallies_empty.incr (R.database.sink c)).1.count_eq (R.database.sink c)
  have hstop : (((R.clearPreUsers (R.database.netOf c) st).net
      (R.database.netOf c)).preDecrementUser (R.database.sink c)) = none := by
    have hz : (st.net (R.database.netOf c)).usersConnectionCounts.count (R.database.sink c) ≤ 0 :=
      hcount
    simp only [NetUsers.preDecrementUser, clearPreUsers, RouterState.withNet_net,
      Function.update_self, NetUsers.clearPreIncrement, NetUsers.clearPreDecrement, h1]
    rw [if_neg (by omega)]
  have hnil' : ((R.clearPreUsers (R.database.netOf c) st).conn c).rnodes = [] := hnil
  simp [ripup, heldNodes, hnil', runAll_cons, preDecrement, hstop]

/-- **A failed attempt never leaves an accounted state accounted.** When its connection was the only
user of the sink, the next rip-up drives the count of the sink below zero, or stops the program. -/
theorem failedAttempt_not_accounted (hacc : Accounted st)
    (hclear : sync = true → ClearPreUsers st (R.database.netOf c))
    (h : FailedAttempt R ρ c tid sync st st') :
    ¬ Accounted st' ∧
      (Uses st c (R.database.sink c) →
        (∀ d, R.database.netOf d = R.database.netOf c → d ≠ c → ¬ Uses st d (R.database.sink c)) →
        (∀ ρ' st'', R.ripup ρ' c false st' = some st'' →
          (st''.net (R.database.netOf c)).countConnectionsOfUser (R.database.sink c) < 0) ∧
        ∀ ρ', R.ripup ρ' c true (R.clearPreUsers (R.database.netOf c) st') = none) := by
  obtain ⟨hnil, hrouted, hother, hcount⟩ := h.released hclear
  have hbefore := hacc.counts (R.database.netOf c) (R.database.sink c)
  rw [connectionsUsing_netOf] at hbefore
  have hheld : (R.heldNodes st c).count (R.database.sink c) = 0 ↔
      ¬ Uses st c (R.database.sink c) := by
    rw [List.count_eq_zero, uses_iff]
  refine ⟨fun hacc' => ?_, fun huses halone => ?_⟩
  · -- The connection now uses its sink by reservation, which is not in the count.
    have huses' : Uses st' c (R.database.sink c) := Or.inr ⟨hnil, rfl⟩
    have hafter := hacc'.counts (R.database.netOf c) (R.database.sink c)
    rw [connectionsUsing_netOf, othersUsing_congr hother, if_pos huses', hcount, hbefore] at hafter
    by_cases hu : Uses st c (R.database.sink c)
    · rw [if_pos hu] at hafter
      have := mt hheld.1 (not_not.2 hu)
      push_cast at hafter
      omega
    · rw [if_neg hu, hheld.2 hu] at hafter
      push_cast at hafter
      omega
  · have hzero : (st'.net (R.database.netOf c)).countConnectionsOfUser (R.database.sink c) ≤ 0 := by
      rw [hcount, hbefore, if_pos huses, othersUsing_eq_zero halone]
      have := mt hheld.1 (not_not.2 huses)
      push_cast
      omega
    refine ⟨fun ρ' st'' hrip => ?_, fun ρ' => ripup_none_of_count_le hnil hzero⟩
    rw [count_ripup hrip, count_heldNodes_sink hnil]
    omega

theorem failedAttempt_not_accounted_columns :
    ∃ st st' : RouterState (columns 1 1 false false).database,
      Accounted st ∧ FailedAttempt _ .own 0 0 true st st' ∧ ¬ Accounted st' := by
  have hrun : ∃ st ∈ (columns 1 1 false false).updateSinkNodeUsage
      (.init (fun _ => false) (fun _ => false) 0 0), ClearPreUsers st 0 ∧
      ∃ st₁ ∈ (columns 1 1 false false).ripup .own 0 true st,
      ∃ p ∈ (columns 1 1 false false).routeOneConnection .own 0 0 true st₁, p.1 = false ∧
      ∃ st' ∈ (columns 1 1 false false).updateNet 0 p.2, True := by
    decide +kernel
  obtain ⟨st, hst, hclear, st₁, hrip, ⟨b, st₂⟩, hroute, rfl, st', hmerge, -⟩ := hrun
  have hfresh : Fresh (R := columns 1 1 false false)
      (.init (fun _ => false) (fun _ => false) 0 0) :=
    ⟨fun _ => rfl, fun _ => rfl, fun _ => rfl, fun _ => rfl⟩
  have hacc := (hfresh.settled hst).accounted
  have hfail : FailedAttempt _ .own 0 0 true st st' := ⟨st₁, st₂, hrip, hroute, hmerge⟩
  exact ⟨st, st', hacc, hfail, (failedAttempt_not_accounted hacc (fun _ => hclear) hfail).1⟩

/-- Two nodes without a link between them. Either way of failing loses the reservation; the count
then becomes negative, or the program stops. -/
theorem failedAttempt_loses_reservation :
    ∃ st ∈ (columns 1 1 false false).updateSinkNodeUsage
        (.init (fun _ => false) (fun _ => false) 0 0), Accounted st ∧
      (∃ st', FailedAttempt _ .own 0 0 false st st' ∧ ¬ Accounted st' ∧
        ∃ st'' ∈ (columns 1 1 false false).ripup .own 0 false st',
          (st''.net 0).countConnectionsOfUser 1 = -1) ∧
      ∃ st', FailedAttempt _ .own 0 0 true st st' ∧ ¬ Accounted st' ∧
        (columns 1 1 false false).ripup .own 0 true
          ((columns 1 1 false false).clearPreUsers 0 st') = none := by
  have hrun : ∃ st ∈ (columns 1 1 false false).updateSinkNodeUsage
      (.init (fun _ => false) (fun _ => false) 0 0),
      (∃ st₁ ∈ (columns 1 1 false false).ripup .own 0 false st,
        ∃ p ∈ (columns 1 1 false false).routeOneConnection .own 0 0 false st₁, p.1 = false ∧
        (p.2.net 0).countConnectionsOfUser 1 ≠ connectionsUsing p.2 0 1 ∧
        ∃ st'' ∈ (columns 1 1 false false).ripup .own 0 false p.2,
          (st''.net 0).countConnectionsOfUser 1 = -1) ∧
      ∃ st₁ ∈ (columns 1 1 false false).ripup .own 0 true st,
        ∃ p ∈ (columns 1 1 false false).routeOneConnection .own 0 0 true st₁, p.1 = false ∧
        ∃ st' ∈ (columns 1 1 false false).updateNet 0 p.2,
        (st'.net 0).countConnectionsOfUser 1 ≠ connectionsUsing st' 0 1 ∧
        ((columns 1 1 false false).ripup .own 0 true
          ((columns 1 1 false false).clearPreUsers 0 st')).isNone := by
    decide +kernel
  obtain ⟨st, hst, ⟨st₁, hrip, ⟨b, st'⟩, hroute, rfl, hne, hneg⟩,
    st₂, hrip', ⟨b, st₃⟩, hroute', rfl, st₄, hmerge, hne', hstop⟩ := hrun
  have hfresh : Fresh (R := columns 1 1 false false)
      (.init (fun _ => false) (fun _ => false) 0 0) :=
    ⟨fun _ => rfl, fun _ => rfl, fun _ => rfl, fun _ => rfl⟩
  refine ⟨st, hst, (hfresh.settled hst).accounted,
    ⟨st', ⟨st₁, st', hrip, hroute, rfl⟩, fun h => hne (h.counts 0 1), hneg⟩,
    st₄, ⟨st₂, st₃, hrip', hroute', hmerge⟩, fun h => hne' (h.counts 0 1), ?_⟩
  exact Option.isNone_iff_eq_none.1 hstop

end FailedAttempt

end AStarRoute

end Potter
