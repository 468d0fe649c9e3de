import Potter.Route.FixNetRoutes
import Potter.Route.SavedPaths

/-!
# The trees that are saved

What `saveAllRoutingSolutions` leaves for the writer: for every net a forest along the paths of its
connections, in which each source pin leads to its sink pins and no node has two drivers
(`SavedNet`). The nets are saved by several threads, in any order.

What a net leaves depends on its paths only (`finishNet_unique`): they are kept if they use no node
twice, and otherwise `fixNetRoutes` searches among their nodes. So a run of saves returns if every net
can be saved by itself and no two of them share a node, and it leaves the same routing in every order.
-/

namespace Potter

open Lib Relation

namespace AStarRoute

/-! ## What fixing a net depends on -/

section Fixing

variable {K : Type} [Arith K] {R : AStarRoute K} {netRNodes : List R.database.NodeId}
  {source : R.database.NodeId}

/-- The search stays among the nodes of the net. -/
theorem findPrevs_congr {branches branches' : R.database.NodeId → List R.database.NodeId}
    (hsource : source ∈ netRNodes)
    (hclosed : ∀ u v, u ∈ netRNodes → v ∈ branches u → v ∈ netRNodes)
    (hsame : ∀ u ∈ netRNodes, branches' u = branches u) :
    R.findPrevs branches' source netRNodes = R.findPrevs branches source netRNodes := by
  have hfuel : R.fixFuel branches' netRNodes = R.fixFuel branches netRNodes := by
    unfold fixFuel
    rw [List.map_congr_left fun u hu => congrArg List.length (hsame u hu)]
  unfold findPrevs
  rw [hfuel]
  refine LabelCorrecting.loop_congr (N := (· ∈ netRNodes)) hclosed hsame _ _ _ fun v hv => ?_
  rcases R.queue.mem_push.1 hv with rfl | hv
  · exact hsource
  · exact absurd hv List.not_mem_nil

variable {prevs : R.database.NodeId → Option R.database.NodeId} {route : List R.database.NodeId}
  {s s' : SaveState R.database}

theorem clearNet_results (s : SaveState R.database) (u : R.database.NodeId) :
    (R.clearNet netRNodes s).nodeRoutingResults u =
      if u ∈ netRNodes then (s.nodeRoutingResults u).clearBranches else s.nodeRoutingResults u := by
  unfold clearNet
  induction netRNodes generalizing s with
  | nil => simp
  | cons r netRNodes ih =>
    rw [List.foldl_cons, ih]
    unfold SaveState.setResult
    by_cases e : u = r
    · subst e
      simp [RouteResult.clearBranches]
    · simp [e]

/-- A node is linked to a node of the net, which stays in its net. -/
theorem linkRoute_frame {r : R.database.NodeId}
    (hprevs : ∀ v u, prevs v = some u → u ∈ netRNodes)
    (h : R.linkRoute prevs source route s r = some s') (u : R.database.NodeId) :
    (s'.nodeRoutingResults u).netId = (s.nodeRoutingResults u).netId ∧
      (u ∉ netRNodes → s'.nodeRoutingResults u = s.nodeRoutingResults u) := by
  unfold linkRoute at h
  split at h
  · obtain ⟨w, hw, rfl⟩ := Option.map_eq_some_iff.1 h
    unfold SaveState.setResult
    by_cases e : u = w
    · subst e
      exact ⟨by simp [RouteResult.addBranch], fun hu => absurd (hprevs r u hw) hu⟩
    · simp [e]
  · cases h
    exact ⟨rfl, fun _ => rfl⟩

theorem foldlM_linkRoute_frame {l : List R.database.NodeId}
    (hprevs : ∀ v u, prevs v = some u → u ∈ netRNodes)
    (h : l.foldlM (R.linkRoute prevs source route) s = some s') (u : R.database.NodeId) :
    (s'.nodeRoutingResults u).netId = (s.nodeRoutingResults u).netId ∧
      (u ∉ netRNodes → s'.nodeRoutingResults u = s.nodeRoutingResults u) := by
  induction l generalizing s with
  | nil =>
    cases h
    exact ⟨rfl, fun _ => rfl⟩
  | cons r l ih =>
    rw [List.foldlM_cons] at h
    obtain ⟨s₁, h₁, h⟩ := Option.bind_eq_some_iff.1 h
    obtain ⟨hnet₁, hout₁⟩ := linkRoute_frame hprevs h₁ u
    obtain ⟨hnet, hout⟩ := ih h
    exact ⟨hnet.trans hnet₁, fun hu => (hout hu).trans (hout₁ hu)⟩

end Fixing

/-! ## Fixing a net -/

section Exact

variable {R : AStarRoute ℚ} {n : R.database.NetId} {pins : NetPins R.database.NodeId}
  {netRNodes : List R.database.NodeId} {source : R.database.NodeId}
  {sinkPins : List R.database.NodeId} {s s' : SaveState R.database}

theorem fixNetRoutes_eq (hpins : pins.Between (R.database.nets n) source sinkPins)
    (hsource : source ∈ netRNodes) : R.fixNetRoutes n pins netRNodes s =
      match R.findPrevs s.branches source netRNodes with
      | .done labels => (R.inRoute s.nodeType labels.prev source sinkPins).bind fun route =>
          netRNodes.foldlM (R.linkRoute labels.prev source route) (R.clearNet netRNodes s)
      | _ => none := by
  unfold fixNetRoutes
  rw [R.fixPins_eq hpins hsource, Option.bind_eq_bind, Option.bind_some]
  dsimp only
  cases R.findPrevs s.branches source netRNodes <;> rfl

/-- What fixing a net leaves: the branches on the ways that the search found, and every other node as
it was. -/
structure Fixes (R : AStarRoute ℚ) (netRNodes : List R.database.NodeId)
    (source : R.database.NodeId) (sinkPins : List R.database.NodeId)
    (labels : LabelCorrecting.Labels R.database.NodeId ℚ) (s s' : SaveState R.database) : Prop where
  found : ∃ E, R.Found s.branches netRNodes source labels E
  keeps : KeepsRoute labels.prev source sinkPins netRNodes s'.branches
  chain : ∀ t ∈ sinkPins, ∃ way, LabelCorrecting.Chain labels.prev source t way
  netId : ∀ u, (s'.nodeRoutingResults u).netId = (s.nodeRoutingResults u).netId
  frame : ∀ u ∉ netRNodes, s'.nodeRoutingResults u = s.nodeRoutingResults u

section FixNet

variable (hpins : pins.Between (R.database.nets n) source sinkPins) (hsource : source ∈ netRNodes)
  (hclosed : ∀ u v, u ∈ netRNodes → v ∈ s.branches u → v ∈ netRNodes)
  (hcost : ∀ r, 0 ≤ R.baseCost r)
include hpins hsource hclosed hcost

theorem fixes_of_fixNetRoutes (h : R.fixNetRoutes n pins netRNodes s = some s') :
    ∃ labels, R.findPrevs s.branches source netRNodes = .done labels ∧
      R.Fixes netRNodes source sinkPins labels s s' := by
  rw [fixNetRoutes_eq hpins hsource] at h
  rcases R.findPrevs_spec hsource hclosed hcost with hstop | ⟨labels, E, hdone, hfound⟩
  · rw [hstop] at h
    cases h
  · rw [hdone] at h
    obtain ⟨route, hroute, hfold⟩ := Option.bind_eq_some_iff.1 h
    have hframe := foldlM_linkRoute_frame (fun v u hprev => (hfound.labeled.edge u v hprev).1) hfold
    refine ⟨labels, hdone, ⟨E, hfound⟩, keepsRoute_of_foldlM hfound hsource hclosed hroute hfold,
      fun t ht => ?_, fun u => ?_, fun u hu => ?_⟩
    · obtain ⟨way, hway⟩ := (R.inRoute_isSome.1 ⟨route, hroute⟩ t ht).2
      exact ⟨way, (LabelCorrecting.climb_eq_some.1 hway).1⟩
    · rw [(hframe u).1, clearNet_results]
      split <;> rfl
    · rw [(hframe u).2 hu, clearNet_results, if_neg hu]

theorem fixNetRoutes_isSome_iff : (∃ s', R.fixNetRoutes n pins netRNodes s = some s') ↔
    R.findPrevs s.branches source netRNodes ≠ .stopped ∧
      ∀ t ∈ sinkPins, s.nodeType t = .pinfeedI ∧
        ∃ k, LabelCorrecting.Walk s.branches R.baseCost source t k ∧ k < (intMax : ℚ) := by
  rw [fixNetRoutes_eq hpins hsource]
  rcases R.findPrevs_spec hsource hclosed hcost with hstop | ⟨labels, E, hdone, hfound⟩
  · rw [hstop]
    simp
  · simp only [← hfound.climb_iff hsource hclosed]
    rw [hdone, ← R.inRoute_isSome]
    dsimp only
    constructor
    · rintro ⟨s', h⟩
      obtain ⟨route, hroute, -⟩ := Option.bind_eq_some_iff.1 h
      exact ⟨by simp, route, hroute⟩
    · rintro ⟨-, route, hroute⟩
      have hprevs : ∀ r ∈ route, labels.prev r ≠ none := by
        intro r hr
        obtain ⟨t, -, way, hchain, hmem⟩ := (R.mem_inRoute hroute).1 hr
        obtain ⟨-, u, hu, -⟩ := hchain.of_mem_prev hmem
        rw [hu]
        exact Option.some_ne_none u
      rw [hroute, Option.bind_some]
      exact R.foldlM_linkRoute_isSome hprevs netRNodes (R.clearNet netRNodes s)

end FixNet

/-! ## When a net can be saved -/

variable (R) (sol : Solution R.database) (n : R.database.NetId)

/-- What the reader and the routers promise about the pins of a net: they are those of its
connections, and the direct connections are routed. -/
structure PinsFit : Prop where
  sourcePin : (R.database.nets n).indirectConns = [] → (sol.pins n).indirectSourcePin = none
  sinkPins : ∀ t, t ∈ (sol.pins n).indirectSinkPins ↔
    ∃ c ∈ (R.database.nets n).indirectConns, (sol.intToSinkPath c).getLast? = some t
  directSourcePin : ∀ c ∈ (R.database.nets n).directConns,
    (sol.pins n).directSourcePin = some (sol.directConnections c).source
  directSinkPins : ∀ t, t ∈ (sol.pins n).directSinkPins ↔
    ∃ c ∈ (R.database.nets n).directConns, (sol.directConnections c).sink = t
  routed : ∀ c ∈ (R.database.nets n).directConns,
    (sol.directConnections c).rnodes.head? = some (sol.directConnections c).sink ∧
      (sol.directConnections c).rnodes.getLast? = some (sol.directConnections c).source

/-- The last assignment to the type of a sink pin marks it. -/
def KeepsMark (steps : List (SaveStep R.database.ConnId)) (v : R.database.NodeId) : Prop :=
  ∃ pre a post, steps = pre ++ a :: post ∧ a.sinkPin sol = some v ∧ ∀ b ∈ post, ¬Unmarks sol v b

/-- The paths of a net can be cut down to a tree: its connections are of one kind, the sink pins stay
marked, and the search reaches them before its watchdog ends it. -/
structure Fixable : Prop where
  unmixed : (R.database.nets n).indirectConns = [] ∨ (R.database.nets n).directConns = []
  marks : ∀ p ∈ R.netPaths sol n, ∀ t, p.getLast? = some t → R.KeepsMark sol (R.saveSteps n) t
  watchDog : ∀ p ∈ R.netPaths sol n, ∀ a, p.head? = some a →
    R.findPrevs (R.netBranches sol n) a (R.netNodes sol n) ≠ .stopped
  cheap : ∀ p ∈ R.netPaths sol n, ∀ a t, p.head? = some a → p.getLast? = some t →
    ∃ k, LabelCorrecting.Walk (R.netBranches sol n) R.baseCost a t k ∧ k < (intMax : ℚ)

/-- A net can be saved: the parts of its paths meet, and if they use a node twice they can be cut down
to a tree. -/
structure Savable : Prop where
  meets : ∀ step ∈ R.saveSteps n, R.Meets sol n step
  fixable : ¬(R.netPaths sol n).flatten.Nodup → R.Fixable sol n

/-- The branches of a net route it: its edges are edges of its paths, every source pin leads to its
sink pins and every edge to one, no node has two drivers and there is no cycle. -/
structure IsRouting (branches : R.database.NodeId → List R.database.NodeId) : Prop where
  edges : ∀ u v, NetEdge (· ∈ R.netNodes sol n) branches u v → PathEdge (R.netPaths sol n) u v
  driver_unique : ∀ u u' v, NetEdge (· ∈ R.netNodes sol n) branches u v →
    NetEdge (· ∈ R.netNodes sol n) branches u' v → u = u'
  source_undriven : ∀ p ∈ R.netPaths sol n, ∀ a, p.head? = some a →
    ∀ u, ¬NetEdge (· ∈ R.netNodes sol n) branches u a
  connects : ∀ p ∈ R.netPaths sol n, ∀ a t, p.head? = some a → p.getLast? = some t →
    ReflTransGen (NetEdge (· ∈ R.netNodes sol n) branches) a t
  leads : ∀ u v, NetEdge (· ∈ R.netNodes sol n) branches u v →
    ∃ p ∈ R.netPaths sol n, ∃ t, p.getLast? = some t ∧
      ReflTransGen (NetEdge (· ∈ R.netNodes sol n) branches) v t
  acyclic : ∀ v, ¬TransGen (NetEdge (· ∈ R.netNodes sol n) branches) v v

/-- A net as it is saved: the nodes of its paths carry it, and its branches route it. -/
structure SavedNet (s : SaveState R.database) : Prop where
  carries : ∀ v, (s.nodeRoutingResults v).netId = some n ↔ v ∈ R.netNodes sol n
  routing : R.IsRouting sol n s.branches

variable {R sol n}

theorem foldl_retype_eq_pinfeedI {steps : List (SaveStep R.database.ConnId)} {v : R.database.NodeId}
    (hmark : ∃ a ∈ steps, a.sinkPin sol = some v) (types : R.database.NodeId → NodeType) :
    steps.foldl (retype sol) types v = .pinfeedI ↔ R.KeepsMark sol steps v := by
  rw [foldl_marked (P := fun types => types v = NodeType.pinfeedI)
    (fun types a => retype_eq_pinfeedI sol types a v) steps types]
  refine or_iff_left_of_imp ?_
  rintro ⟨-, hnone⟩
  obtain ⟨a, ha, hv⟩ := hmark
  obtain ⟨pre, post, rfl⟩ := List.append_of_mem ha
  exact ⟨pre, a, post, rfl, hv,
    fun b hb => hnone b (List.mem_append_right pre (List.mem_cons_of_mem a hb))⟩

theorem netBranches_closed (u v : R.database.NodeId) (_ : u ∈ R.netNodes sol n)
    (hv : v ∈ R.netBranches sol n u) : v ∈ R.netNodes sol n := by
  unfold netNodes
  rw [mem_sortedSet]
  exact (mem_netBranches.1 hv).mem.2

/-! ## The ends of the paths -/

theorem mem_directConns_of_mem_saveSteps {c : Nat} (h : SaveStep.direct c ∈ R.saveSteps n) :
    c ∈ (R.database.nets n).directConns := by
  rcases List.mem_append.1 h with h | h
  · obtain ⟨d, -, hd⟩ := List.mem_map.1 h
    cases hd
  · obtain ⟨d, hd, heq⟩ := List.mem_map.1 h
    cases heq
    exact hd

section Ends

variable (hfits : R.PinsFit sol n) (hmeets : ∀ step ∈ R.saveSteps n, R.Meets sol n step)
include hfits hmeets

theorem savedPath_ends {step : SaveStep R.database.ConnId} (hstep : step ∈ R.saveSteps n) :
    R.savedPath sol step ≠ [] ∧ (R.savedPath sol step).getLast? = step.sinkPin sol ∧
      (R.savedPath sol step).head? = if step.isIndirect then (sol.pins n).indirectSourcePin
        else (sol.pins n).directSourcePin := by
  cases step with
  | indirect c =>
    obtain ⟨htotal, hpin⟩ := hmeets _ hstep
    obtain ⟨path, hpath⟩ := Option.isSome_iff_exists.1 htotal
    obtain ⟨hne, -, hhead, hlast⟩ := totalPath_ends hpath
    rw [savedPath, hpath, Option.getD_some]
    exact ⟨hne, hlast, hhead.trans hpin⟩
  | direct c =>
    have hc := mem_directConns_of_mem_saveSteps hstep
    obtain ⟨hhead, hlast⟩ := hfits.routed c hc
    refine ⟨?_, ?_, ?_⟩
    · intro e
      rw [savedPath, List.reverse_eq_nil_iff] at e
      rw [e] at hhead
      cases hhead
    · rw [savedPath, List.getLast?_reverse, hhead]
      rfl
    · rw [savedPath, List.head?_reverse, hlast]
      exact (hfits.directSourcePin c hc).symm

/-- The pins between which the net was routed are the ends of its paths. -/
theorem exists_between (hnodup : ¬(R.netPaths sol n).flatten.Nodup)
    (hunmixed : (R.database.nets n).indirectConns = [] ∨ (R.database.nets n).directConns = []) :
    ∃ source sinkPins, (sol.pins n).Between (R.database.nets n) source sinkPins ∧
      source ∈ R.netNodes sol n ∧ (∀ p ∈ R.netPaths sol n, p.head? = some source) ∧
      ∀ t, t ∈ sinkPins ↔ ∃ p ∈ R.netPaths sol n, p.getLast? = some t := by
  have hne : R.saveSteps n ≠ [] := by
    intro e
    rw [netPaths, e] at hnodup
    exact hnodup List.nodup_nil
  have hends := fun step (hstep : step ∈ R.saveSteps n) => savedPath_ends hfits hmeets hstep
  obtain ⟨step₀, hstep₀⟩ := List.exists_mem_of_ne_nil _ hne
  obtain ⟨hne₀, -, hhead₀⟩ := hends step₀ hstep₀
  obtain ⟨source, hsource⟩ := Option.ne_none_iff_exists'.1 (mt List.head?_eq_none_iff.1 hne₀)
  have hmem : source ∈ R.netNodes sol n :=
    mem_netNodes.2 ⟨_, List.mem_map_of_mem hstep₀, List.mem_of_mem_head? hsource⟩
  rw [hsource] at hhead₀
  rcases hunmixed with hconns | hconns
  · -- only direct connections
    have hsteps : R.saveSteps n = (R.database.nets n).directConns.map .direct := by
      rw [saveSteps, hconns, List.map_nil, List.nil_append]
    have hdirect : ∀ step ∈ R.saveSteps n, step.isIndirect = false := by
      rw [hsteps]
      exact List.forall_mem_map.2 fun _ _ => rfl
    rw [hdirect step₀ hstep₀, if_neg Bool.false_ne_true] at hhead₀
    refine ⟨source, (sol.pins n).directSinkPins, .inr ⟨hconns, hfits.sourcePin hconns, hhead₀.symm,
      rfl⟩, hmem, List.forall_mem_map.2 fun step hstep => ?_, fun t => ?_⟩
    · rw [(hends step hstep).2.2, hdirect step hstep, if_neg Bool.false_ne_true, hhead₀]
    · simp only [hfits.directSinkPins, netPaths, hsteps, List.mem_map, exists_exists_and_eq_and]
      refine exists_congr fun c => and_congr_right fun hc => ?_
      rw [(hends (.direct c) (hsteps ▸ List.mem_map_of_mem hc)).2.1, SaveStep.sinkPin, Option.some_inj]
  · -- only indirect ones
    have hsteps : R.saveSteps n = (R.database.nets n).indirectConns.map .indirect := by
      rw [saveSteps, hconns, List.map_nil, List.append_nil]
    have hindirect : ∀ step ∈ R.saveSteps n, step.isIndirect = true := by
      rw [hsteps]
      exact List.forall_mem_map.2 fun _ _ => rfl
    rw [hindirect step₀ hstep₀, if_pos rfl] at hhead₀
    refine ⟨source, (sol.pins n).indirectSinkPins, .inl ⟨hconns, hhead₀.symm, rfl⟩, hmem,
      List.forall_mem_map.2 fun step hstep => ?_, fun t => ?_⟩
    · rw [(hends step hstep).2.2, hindirect step hstep, if_pos rfl, hhead₀]
    · simp only [hfits.sinkPins, netPaths, hsteps, List.mem_map, exists_exists_and_eq_and]
      refine exists_congr fun c => and_congr_right fun hc => ?_
      rw [(hends (.indirect c) (hsteps ▸ List.mem_map_of_mem hc)).2.1, SaveStep.sinkPin]

theorem exists_sinkPin {p : List R.database.NodeId} (hp : p ∈ R.netPaths sol n)
    {t : R.database.NodeId} (ht : p.getLast? = some t) :
    ∃ a ∈ R.saveSteps n, a.sinkPin sol = some t := by
  obtain ⟨step, hstep, rfl⟩ := List.mem_map.1 hp
  exact ⟨step, hstep, (savedPath_ends hfits hmeets hstep).2.1.symm.trans ht⟩

end Ends

theorem unmixed_of_fixNetRoutes {netRNodes : List R.database.NodeId}
    (h : R.fixNetRoutes n pins netRNodes s = some s') :
    (R.database.nets n).indirectConns = [] ∨ (R.database.nets n).directConns = [] := by
  obtain ⟨_, hpins, -⟩ := Option.bind_eq_some_iff.1 h
  unfold fixPins at hpins
  dsimp only at hpins
  obtain ⟨hunmixed, -⟩ := Option.ite_none_right_eq_some.1 hpins
  unfold Net.getConnectionSize Net.getDirectConnectionSize at hunmixed
  simpa using hunmixed

/-! ## One net -/

theorem netWritten_closed (s : SaveState R.database) (u v : R.database.NodeId)
    (hu : u ∈ R.netNodes sol n) (hv : v ∈ (R.netWritten sol n s).branches u) :
    v ∈ R.netNodes sol n := by
  rw [netWritten_branches s hu] at hv
  exact netBranches_closed u v hu hv

/-- A node without branches is a sink pin. -/
theorem exists_sinkPin_of_leaf {r : R.database.NodeId} (hr : r ∈ R.netNodes sol n)
    (hleaf : R.netBranches sol n r = []) : ∃ p ∈ R.netPaths sol n, p.getLast? = some r := by
  obtain ⟨p, hp, hrp⟩ := mem_netNodes.1 hr
  rcases exists_next_or_last hrp with ⟨v, hv⟩ | hlast
  · have hmem := mem_netBranches.2 ⟨p, hp, hv⟩
    rw [hleaf] at hmem
    cases hmem
  · exact ⟨p, hp, hlast⟩

theorem IsRouting.congr {branches branches' : R.database.NodeId → List R.database.NodeId}
    (h : R.IsRouting sol n branches) (hsame : ∀ u ∈ R.netNodes sol n, branches' u = branches u) :
    R.IsRouting sol n branches' := by
  have hedge : NetEdge (· ∈ R.netNodes sol n) branches' = NetEdge (· ∈ R.netNodes sol n) branches := by
    funext u v
    exact propext (and_congr_right fun hu => by rw [hsame u hu])
  obtain ⟨hedges, hunique, hundriven, hconnects, hleads, hacyclic⟩ := h
  rw [← hedge] at hunique hundriven hconnects hleads hacyclic
  exact ⟨fun u v huv => hedges u v (hedge ▸ huv), hunique, hundriven, hconnects, hleads, hacyclic⟩

/-- Paths that use no node twice are saved as they are. -/
theorem isRouting_netBranches (hnodup : (R.netPaths sol n).flatten.Nodup) :
    R.IsRouting sol n (R.netBranches sol n) := by
  have hedge : NetEdge (· ∈ R.netNodes sol n) (R.netBranches sol n) =
      PathEdge (R.netPaths sol n) := by
    funext u v
    refine propext ⟨fun huv => mem_netBranches.1 huv.2, fun huv => ⟨?_, mem_netBranches.2 huv⟩⟩
    exact mem_sortedSet.2 huv.mem.1
  constructor <;> rw [hedge]
  · exact fun u v huv => huv
  · exact fun u u' v hu hu' => hu.unique hnodup hu'
  · exact fun p hp a ha u => not_pathEdge_head hnodup hp ha
  · exact fun p hp a t ha ht => PathEdge.reaches hp (List.mem_of_mem_head? ha) ht
  · rintro u v ⟨p, hp, hsub⟩
    have hv : v ∈ p := hsub.subset (List.mem_cons_of_mem u List.mem_cons_self)
    obtain ⟨t, ht⟩ := Option.ne_none_iff_exists'.1
      (mt List.getLast?_eq_none_iff.1 (List.ne_nil_of_mem hv))
    exact ⟨p, hp, t, ht, PathEdge.reaches hp hv ht⟩
  · exact PathEdge.acyclic hnodup

/-- The tree that is cut out of the paths routes the net. -/
theorem isRouting_of_fixes {labels : LabelCorrecting.Labels R.database.NodeId ℚ}
    (hsource : source ∈ R.netNodes sol n) (hheads : ∀ p ∈ R.netPaths sol n, p.head? = some source)
    (hsinks : ∀ t, t ∈ sinkPins ↔ ∃ p ∈ R.netPaths sol n, p.getLast? = some t)
    (h : R.Fixes (R.netNodes sol n) source sinkPins labels (R.netWritten sol n s).toSaveState s') :
    R.IsRouting sol n s'.branches := by
  obtain ⟨E, hfound⟩ := h.found
  have htree := hfound.minimumArborescence h.keeps hsource (netWritten_closed s) h.chain
  refine ⟨fun u v huv => ?_, htree.driver_unique, fun p hp a ha => ?_, fun p hp a t ha ht => ?_,
    fun u v huv => ?_, htree.acyclic⟩
  · obtain ⟨hu, hv⟩ := htree.subset u v huv
    rw [netWritten_branches s hu] at hv
    exact mem_netBranches.1 hv
  · rw [hheads p hp] at ha
    cases ha
    exact htree.source_undriven
  · rw [hheads p hp] at ha
    cases ha
    exact htree.sink_reachable t ((hsinks t).2 ⟨p, hp, ht⟩)
  · obtain ⟨t, ht, hreach⟩ := (htree.on_path u v huv).2
    obtain ⟨p, hp, hlast⟩ := (hsinks t).1 ht
    exact ⟨p, hp, t, hlast, hreach⟩

section OneNet

variable (hcost : ∀ r, 0 ≤ R.baseCost r) (hfits : R.PinsFit sol n)
  (hmeets : ∀ step ∈ R.saveSteps n, R.Meets sol n step)
include hcost hfits hmeets

/-- The pins of a net that uses a node twice, and what fixing it asks for. -/
theorem fixNetRoutes_netWritten_iff (hnodup : ¬(R.netPaths sol n).flatten.Nodup)
    (hunmixed : (R.database.nets n).indirectConns = [] ∨ (R.database.nets n).directConns = [])
    (s : SaveState R.database) :
    (∃ s', R.fixNetRoutes n (sol.pins n) (R.netNodes sol n) (R.netWritten sol n s).toSaveState =
      some s') ↔ R.Fixable sol n := by
  obtain ⟨source, sinkPins, hbetween, hsource, hheads, hsinks⟩ :=
    exists_between hfits hmeets hnodup hunmixed
  have hsame : ∀ u ∈ R.netNodes sol n, (R.netWritten sol n s).branches u = R.netBranches sol n u :=
    fun u hu => netWritten_branches s hu
  rw [fixNetRoutes_isSome_iff hbetween hsource (netWritten_closed s) hcost,
    findPrevs_congr hsource netBranches_closed hsame]
  have hmark : ∀ p ∈ R.netPaths sol n, ∀ t, p.getLast? = some t →
      ((R.netWritten sol n s).nodeType t = .pinfeedI ↔ R.KeepsMark sol (R.saveSteps n) t) :=
    fun p hp t ht => foldl_retype_eq_pinfeedI (exists_sinkPin hfits hmeets hp ht) s.nodeType
  have hwalk : ∀ t k, LabelCorrecting.Walk (R.netWritten sol n s).branches R.baseCost source t k ↔
      LabelCorrecting.Walk (R.netBranches sol n) R.baseCost source t k := fun t k =>
    LabelCorrecting.Walk.congr hsource netBranches_closed hsame
  constructor
  · rintro ⟨hdog, hreach⟩
    refine ⟨hunmixed, fun p hp t ht => ?_, fun p hp a ha => ?_, fun p hp a t ha ht => ?_⟩
    · exact (hmark p hp t ht).1 (hreach t ((hsinks t).2 ⟨p, hp, ht⟩)).1
    · rw [hheads p hp] at ha
      cases ha
      exact hdog
    · rw [hheads p hp] at ha
      cases ha
      obtain ⟨k, hk, hlt⟩ := (hreach t ((hsinks t).2 ⟨p, hp, ht⟩)).2
      exact ⟨k, (hwalk t k).1 hk, hlt⟩
  · intro h
    obtain ⟨p₀, hp₀, -⟩ := mem_netNodes.1 hsource
    refine ⟨h.watchDog p₀ hp₀ source (hheads p₀ hp₀), fun t ht => ?_⟩
    obtain ⟨p, hp, ht⟩ := (hsinks t).1 ht
    obtain ⟨k, hk, hlt⟩ := h.cheap p hp source t (hheads p hp) ht
    exact ⟨(hmark p hp t ht).2 (h.marks p hp t ht), k, (hwalk t k).2 hk, hlt⟩

/-- **When the paths of a net are accepted.** -/
theorem finishNet_isSome_iff (s : SaveState R.database) :
    (∃ s', R.finishNet sol n (R.netWritten sol n s) = some s') ↔
      (¬(R.netPaths sol n).flatten.Nodup → R.Fixable sol n) := by
  unfold finishNet
  by_cases hnodup : (R.netPaths sol n).flatten.Nodup
  · rw [if_neg (mt (netWritten_hasMultiDriver s).1 (not_not.2 hnodup))]
    exact iff_of_true ⟨_, rfl⟩ fun h => absurd hnodup h
  · rw [if_pos ((netWritten_hasMultiDriver s).2 hnodup), netWritten_netRNodes]
    constructor
    · rintro ⟨s', h⟩ -
      obtain ⟨-, h⟩ := Option.ite_none_right_eq_some.1 h
      exact (fixNetRoutes_netWritten_iff hcost hfits hmeets hnodup (unmixed_of_fixNetRoutes h) s).1
        ⟨s', h⟩
    · intro h
      have hfix := h hnodup
      rw [if_pos (List.all_eq_true.2 fun r hr => decide_eq_true fun hleaf => ?_)]
      · exact (fixNetRoutes_netWritten_iff hcost hfits hmeets hnodup hfix.unmixed s).2 hfix
      · rw [netWritten_branches s hr] at hleaf
        obtain ⟨p, hp, ht⟩ := exists_sinkPin_of_leaf hr hleaf
        exact (foldl_retype_eq_pinfeedI (exists_sinkPin hfits hmeets hp ht) s.nodeType).2
          (hfix.marks p hp r ht)

/-- **What is left of a net**: a routing on its own nodes, and every other node as it was. -/
theorem finishNet_spec (h : R.finishNet sol n (R.netWritten sol n s) = some s') :
    R.IsRouting sol n s'.branches ∧
      (∀ u ∈ R.netNodes sol n, (s'.nodeRoutingResults u).netId = some n) ∧
      ∀ u ∉ R.netNodes sol n, s'.nodeRoutingResults u = s.nodeRoutingResults u := by
  have hin : ∀ u ∈ R.netNodes sol n,
      ((R.netWritten sol n s).nodeRoutingResults u).netId = some n := by
    intro u hu
    rw [netWritten_results, if_pos hu]
    rfl
  have hout : ∀ u ∉ R.netNodes sol n,
      (R.netWritten sol n s).nodeRoutingResults u = s.nodeRoutingResults u := by
    intro u hu
    rw [netWritten_results, if_neg hu]
  unfold finishNet at h
  by_cases hnodup : (R.netPaths sol n).flatten.Nodup
  · rw [if_neg (mt (netWritten_hasMultiDriver s).1 (not_not.2 hnodup))] at h
    cases h
    exact ⟨(isRouting_netBranches hnodup).congr fun u hu => netWritten_branches s hu, hin, hout⟩
  · rw [if_pos ((netWritten_hasMultiDriver s).2 hnodup), netWritten_netRNodes] at h
    obtain ⟨-, h⟩ := Option.ite_none_right_eq_some.1 h
    obtain ⟨source, sinkPins, hbetween, hsource, hheads, hsinks⟩ :=
      exists_between hfits hmeets hnodup (unmixed_of_fixNetRoutes h)
    obtain ⟨labels, -, hfixes⟩ :=
      fixes_of_fixNetRoutes hbetween hsource (netWritten_closed s) hcost h
    exact ⟨isRouting_of_fixes hsource hheads hsinks hfixes,
      fun u hu => (hfixes.netId u).trans (hin u hu), fun u hu => (hfixes.frame u hu).trans (hout u hu)⟩

/-- What is left of a net does not depend on what was saved before. -/
theorem finishNet_unique {t t' : SaveState R.database}
    (h : R.finishNet sol n (R.netWritten sol n s) = some s')
    (h' : R.finishNet sol n (R.netWritten sol n t) = some t') (u : R.database.NodeId)
    (hu : u ∈ R.netNodes sol n) : s'.nodeRoutingResults u = t'.nodeRoutingResults u := by
  refine RouteResult.ext_of_mem (((finishNet_spec hcost hfits hmeets h).2.1 u hu).trans
    ((finishNet_spec hcost hfits hmeets h').2.1 u hu).symm) fun v => ?_
  show v ∈ s'.branches u ↔ v ∈ t'.branches u
  unfold finishNet at h h'
  by_cases hnodup : (R.netPaths sol n).flatten.Nodup
  · rw [if_neg (mt (netWritten_hasMultiDriver _).1 (not_not.2 hnodup))] at h h'
    cases h
    cases h'
    rw [netWritten_branches s hu, netWritten_branches t hu]
  · rw [if_pos ((netWritten_hasMultiDriver _).2 hnodup), netWritten_netRNodes] at h h'
    obtain ⟨-, h⟩ := Option.ite_none_right_eq_some.1 h
    obtain ⟨-, h'⟩ := Option.ite_none_right_eq_some.1 h'
    obtain ⟨source, sinkPins, hbetween, hsource, -, -⟩ :=
      exists_between hfits hmeets hnodup (unmixed_of_fixNetRoutes h)
    -- both searches run on the paths of the net
    have hsearch := fun s : SaveState R.database =>
      findPrevs_congr (R := R) hsource netBranches_closed fun u hu => netWritten_branches s hu
    obtain ⟨labels, hdone, hfixes⟩ :=
      fixes_of_fixNetRoutes hbetween hsource (netWritten_closed s) hcost h
    obtain ⟨labels', hdone', hfixes'⟩ :=
      fixes_of_fixNetRoutes hbetween hsource (netWritten_closed t) hcost h'
    rw [hsearch] at hdone hdone'
    cases hdone.symm.trans hdone'
    rw [hfixes.keeps u hu v, hfixes'.keeps u hu v]

end OneNet

/-- A net can be saved where its nodes are not used. -/
theorem saveOneNet_isSome_iff (hcost : ∀ r, 0 ≤ R.baseCost r) (hfits : R.PinsFit sol n)
    (hfree : ∀ u ∈ R.netNodes sol n, s.nodeRoutingResults u = .init) :
    (∃ s', R.saveOneNet sol n s = some s') ↔ R.Savable sol n := by
  constructor
  · rintro ⟨s', h⟩
    have hmeets : ∀ step ∈ R.saveSteps n, R.Meets sol n step := by
      rw [saveOneNet_eq] at h
      obtain ⟨s₁, h₁, -⟩ := Option.bind_eq_some_iff.1 h
      exact meets_of_foldlM h₁
    rw [saveOneNet_eq_finishNet hmeets hfree] at h
    exact ⟨hmeets, (finishNet_isSome_iff hcost hfits hmeets s).1 ⟨s', h⟩⟩
  · intro h
    rw [saveOneNet_eq_finishNet h.meets hfree]
    exact (finishNet_isSome_iff hcost hfits h.meets s).2 h.fixable

theorem finishNet_of_saveOneNet (hcost : ∀ r, 0 ≤ R.baseCost r) (hfits : R.PinsFit sol n)
    (hfree : ∀ u ∈ R.netNodes sol n, s.nodeRoutingResults u = .init)
    (h : R.saveOneNet sol n s = some s') : (∀ step ∈ R.saveSteps n, R.Meets sol n step) ∧
      R.finishNet sol n (R.netWritten sol n s) = some s' := by
  have hmeets := ((saveOneNet_isSome_iff hcost hfits hfree).1 ⟨s', h⟩).meets
  rw [saveOneNet_eq_finishNet hmeets hfree] at h
  exact ⟨hmeets, h⟩

/-! ## All nets -/

section AllNets

variable {order done : List R.database.NetId}

variable (R sol) in
/-- The routing of a net that is saved alone. -/
def savedAlone (n : R.database.NetId) (u : R.database.NodeId) :
    RouteResult R.database.NodeId R.database.NetId :=
  (R.saveOneNet sol n ⟨fun _ => .wire, fun _ => .init⟩).elim .init (·.nodeRoutingResults u)

variable (R sol) in
/-- The nets that have been saved have the routing they have alone, and no other node is used. -/
structure SavedAll (done : List R.database.NetId) (s : SaveState R.database) : Prop where
  carries : ∀ n ∈ done, ∀ u ∈ R.netNodes sol n, (s.nodeRoutingResults u).netId = some n
  routing : ∀ n ∈ done, R.IsRouting sol n s.branches
  alone : ∀ n ∈ done, ∀ u ∈ R.netNodes sol n, s.nodeRoutingResults u = R.savedAlone sol n u
  rest : ∀ u, (∀ n ∈ done, u ∉ R.netNodes sol n) → s.nodeRoutingResults u = .init

/-- The nodes of a net that is saved next are not used. -/
theorem SavedAll.disjoint (hinv : R.SavedAll sol done s) (hn : n ∉ done)
    (h : R.saveOneNet sol n s = some s') :
    ∀ m ∈ done, List.Disjoint (R.netNodes sol m) (R.netNodes sol n) := by
  intro m hm u hum hun
  have hnet := netId_of_saveOneNet h hun
  rw [hinv.carries m hm u hum, Option.some_inj] at hnet
  exact hnet.elim (by simp) fun e => hn (e ▸ hm)

theorem SavedAll.free (hinv : R.SavedAll sol done s)
    (hdisj : ∀ m ∈ done, List.Disjoint (R.netNodes sol m) (R.netNodes sol n)) :
    ∀ u ∈ R.netNodes sol n, s.nodeRoutingResults u = .init :=
  fun u hu => hinv.rest u fun m hm hum => hdisj m hm hum hu

theorem savedAll_nil (hunsaved : ∀ v, s.nodeRoutingResults v = .init) : R.SavedAll sol [] s :=
  ⟨fun _ hn => absurd hn List.not_mem_nil, fun _ hn => absurd hn List.not_mem_nil,
    fun _ hn => absurd hn List.not_mem_nil, fun v _ => hunsaved v⟩

theorem SavedAll.savedNet (hinv : R.SavedAll sol done s) (hn : n ∈ done) : R.SavedNet sol n s := by
  refine ⟨fun v => ⟨fun hv => by_contra fun hnot => ?_, hinv.carries n hn v⟩, hinv.routing n hn⟩
  by_cases hm : ∃ m ∈ done, v ∈ R.netNodes sol m
  · obtain ⟨m, hm, hvm⟩ := hm
    rw [hinv.carries m hm v hvm, Option.some_inj] at hv
    exact hnot (hv ▸ hvm)
  · rw [hinv.rest v fun m hm' hvm => hm ⟨m, hm', hvm⟩] at hv
    cases hv

variable (hcost : ∀ r, 0 ≤ R.baseCost r)
include hcost

/-- **One more net.** -/
theorem SavedAll.step (hfits : R.PinsFit sol n) (hinv : R.SavedAll sol done s) (hn : n ∉ done)
    (h : R.saveOneNet sol n s = some s') : R.SavedAll sol (done ++ [n]) s' := by
  have hdisj := hinv.disjoint hn h
  have hfree := hinv.free hdisj
  obtain ⟨hmeets, hfinish⟩ := finishNet_of_saveOneNet hcost hfits hfree h
  obtain ⟨hrouting, hin, hout⟩ := finishNet_spec hcost hfits hmeets hfinish
  have hold : ∀ m ∈ done, ∀ u ∈ R.netNodes sol m,
      s'.nodeRoutingResults u = s.nodeRoutingResults u :=
    fun m hm u hum => hout u fun hun => hdisj m hm hum hun
  have halone : ∀ u ∈ R.netNodes sol n, s'.nodeRoutingResults u = R.savedAlone sol n u := by
    intro u hu
    obtain ⟨t, ht⟩ := (saveOneNet_isSome_iff hcost hfits
      (s := ⟨fun _ => .wire, fun _ => .init⟩) fun _ _ => rfl).2
      ((saveOneNet_isSome_iff hcost hfits hfree).1 ⟨s', h⟩)
    unfold savedAlone
    rw [ht, Option.elim_some]
    rw [saveOneNet_eq_finishNet hmeets fun _ _ => rfl] at ht
    exact finishNet_unique hcost hfits hmeets hfinish ht u hu
  refine ⟨?_, ?_, ?_, fun u hu => ?_⟩
  · exact List.forall_mem_append.2 ⟨fun m hm u hum =>
      (congrArg _ (hold m hm u hum)).trans (hinv.carries m hm u hum),
      List.forall_mem_singleton.2 hin⟩
  · refine List.forall_mem_append.2 ⟨fun m hm => ?_, List.forall_mem_singleton.2 hrouting⟩
    exact (hinv.routing m hm).congr fun u hum => congrArg _ (hold m hm u hum)
  · exact List.forall_mem_append.2 ⟨fun m hm u hum => (hold m hm u hum).trans (hinv.alone m hm u hum),
      List.forall_mem_singleton.2 halone⟩
  · obtain ⟨hdone, hun⟩ := List.forall_mem_append.1 hu
    rw [hout u (hun n List.mem_cons_self)]
    exact hinv.rest u hdone

variable (hfits : ∀ n ∈ order, R.PinsFit sol n)
include hfits

theorem SavedAll.run (hinv : R.SavedAll sol done s) (hnodup : (done ++ order).Nodup)
    (h : runAll (R.saveOneNet sol) order s = some s') : R.SavedAll sol (done ++ order) s' := by
  induction order generalizing done s with
  | nil =>
    cases h
    rwa [List.append_nil]
  | cons n order ih =>
    obtain ⟨s₁, h₁, h⟩ := Option.bind_eq_some_iff.1 h
    obtain ⟨hn, hrest⟩ := List.forall_mem_cons.1 hfits
    have hnd : n ∉ done := fun hmem =>
      (List.nodup_append'.1 hnodup).2.2 hmem List.mem_cons_self
    rw [List.append_cons] at hnodup ⊢
    exact ih hrest (hinv.step hcost hn hnd h₁) hnodup h

theorem SavedAll.isSome_iff (hinv : R.SavedAll sol done s) (hnodup : (done ++ order).Nodup) :
    (∃ s', runAll (R.saveOneNet sol) order s = some s') ↔
      (∀ n ∈ order, R.Savable sol n) ∧
      order.Pairwise (fun m n => List.Disjoint (R.netNodes sol m) (R.netNodes sol n)) ∧
      ∀ m ∈ done, ∀ n ∈ order, List.Disjoint (R.netNodes sol m) (R.netNodes sol n) := by
  induction order generalizing done s with
  | nil => simp [runAll]
  | cons n order ih =>
    obtain ⟨hn, hrest⟩ := List.forall_mem_cons.1 hfits
    have hnd : n ∉ done := fun hmem =>
      (List.nodup_append'.1 hnodup).2.2 hmem List.mem_cons_self
    rw [List.append_cons] at hnodup
    constructor
    · rintro ⟨s', h⟩
      obtain ⟨s₁, h₁, h⟩ := Option.bind_eq_some_iff.1 h
      have hdisj := hinv.disjoint hnd h₁
      obtain ⟨hsavable, hpair, hcross⟩ :=
        (ih hrest (hinv.step hcost hn hnd h₁) hnodup).1 ⟨s', h⟩
      obtain ⟨hcross, hnew⟩ := List.forall_mem_append.1 hcross
      refine ⟨List.forall_mem_cons.2 ⟨?_, hsavable⟩,
        List.pairwise_cons.2 ⟨hnew n List.mem_cons_self, hpair⟩,
        fun m hm => List.forall_mem_cons.2 ⟨hdisj m hm, hcross m hm⟩⟩
      exact (saveOneNet_isSome_iff hcost hn (hinv.free hdisj)).1 ⟨s₁, h₁⟩
    · rintro ⟨hsavable, hpair, hcross⟩
      obtain ⟨hsave, hsavable⟩ := List.forall_mem_cons.1 hsavable
      obtain ⟨hnew, hpair⟩ := List.pairwise_cons.1 hpair
      have hdisj : ∀ m ∈ done, List.Disjoint (R.netNodes sol m) (R.netNodes sol n) :=
        fun m hm => hcross m hm n List.mem_cons_self
      obtain ⟨s₁, h₁⟩ := (saveOneNet_isSome_iff hcost hn (hinv.free hdisj)).2 hsave
      obtain ⟨s', h⟩ := (ih hrest (hinv.step hcost hn hnd h₁) hnodup).2 ⟨hsavable, hpair,
        List.forall_mem_append.2 ⟨fun m hm k hk => hcross m hm k (List.mem_cons_of_mem n hk),
          List.forall_mem_singleton.2 hnew⟩⟩
      exact ⟨s', Option.bind_eq_some_iff.2 ⟨s₁, h₁, h⟩⟩

end AllNets

end Exact

/-- **When all nets are saved**, in whatever order: if and only if each of them can be saved by itself
and no two of them share a node. -/
theorem saveAllRoutingSolutions_iff {R : AStarRoute ℚ} {sol : Solution R.database}
    {s : SaveState R.database} {order : List R.database.NetId} (hcost : ∀ r, 0 ≤ R.baseCost r)
    (hfits : ∀ n ∈ order, R.PinsFit sol n) (horder : order.Nodup)
    (hunsaved : ∀ v, s.nodeRoutingResults v = .init) :
    (∃ s', R.saveAllRoutingSolutions sol order s = some s') ↔
      (∀ n ∈ order, R.Savable sol n) ∧
      order.Pairwise (fun m n => List.Disjoint (R.netNodes sol m) (R.netNodes sol n)) := by
  refine ((savedAll_nil hunsaved).isSome_iff hcost hfits horder).trans (and_congr_right fun _ => ?_)
  exact and_iff_left fun m hm => absurd hm List.not_mem_nil

/-! Two forks: both paths of a net leave from one node, so that each net is fixed. -/

abbrev forks : AStarRoute ℚ :=
  { fork 1 with
    database :=
      { numNodes := 7
        numNets := 2
        numConns := 4
        routeNodes := fun r =>
          { beginTileXCoordinate := 0
            beginTileYCoordinate := 0
            endTileXCoordinate := 0
            endTileYCoordinate := 0
            baseCost := 1
            length := 1
            type := .wire
            isAccessibleWire := false
            isNodePinBounce := false
            children := .setChildren
              (if r.val = 0 then [idx 1, idx 2] else if r.val = 3 then [idx 4, idx 5] else []) }
        indirectConnections := fun c =>
          { netId := idx (c / 2)
            source := idx (3 * (c / 2))
            sink := idx (3 * (c / 2) + 1 + c % 2)
            xmin := 0
            xmax := 0
            ymin := 0
            ymax := 0
            bbox := .set (-1) (-1) 1 1
            hpwl := 4 }
        nets := fun n =>
          { indirectConns := [idx (2 * n), idx (2 * n + 1)]
            xCenter := 0
            yCenter := 0
            doubleHpwl := 12
            xmin := -1
            xmax := 1
            ymin := -1
            ymax := 1 }
        layout := .set 0 0 108 300
        deviceXMax := 3
        deviceYMax := 0
        mem_indirectConns := by decide
        nodup_indirectConns := by decide
        source_eq := by decide }
    queue := scanQueue _ ℚ }

/-- The forks with their routes. -/
abbrev forksSolution : Solution forks.database where
  sourceToIntPath c := [forks.database.source c]
  intToSinkPath c := [forks.database.sink c]
  rnodes c := [forks.database.sink c, forks.database.source c]
  directConnections _ := ⟨idx 0, idx 0, []⟩
  pins n := ⟨some (idx (3 * n)), [idx (3 * n + 1), idx (3 * n + 2)], none, []⟩

abbrev forksUnsaved : SaveState forks.database := ⟨fun _ => .wire, fun _ => .init⟩

theorem pinsFit_forks (n : Fin 2) : forks.PinsFit forksSolution n where
  sourcePin := by
    revert n
    decide
  sinkPins := by
    revert n
    decide
  directSourcePin _ h := by cases h
  directSinkPins t := by
    refine iff_of_false ?_ fun ⟨_, h, _⟩ => List.not_mem_nil h
    exact (by decide : ∀ (n : Fin 2) (t : Fin 7), t ∉ (forksSolution.pins n).directSinkPins) n t
  routed _ h := by cases h

/-- The second net is saved first. -/
theorem exists_saved_forks :
    ∃ s' ∈ forks.saveAllRoutingSolutions forksSolution [(1 : Fin 2), (0 : Fin 2)] forksUnsaved,
      ∀ n : Fin 2, ∀ step ∈ forks.saveSteps n, ∀ v, step.sinkPin forksSolution = some v →
        s'.nodeType v = .pinfeedI := by
  decide +kernel

theorem saveAllRoutingSolutions_iff_forks :
    (∀ n : Fin 2, ¬(forks.netPaths forksSolution n).flatten.Nodup) ∧
    (∃ s', forks.saveAllRoutingSolutions forksSolution [(1 : Fin 2), (0 : Fin 2)] forksUnsaved =
      some s') ∧
    (∀ n : Fin 2, forks.Savable forksSolution n) ∧
    List.Disjoint (forks.netNodes forksSolution (1 : Fin 2))
      (forks.netNodes forksSolution (0 : Fin 2)) := by
  obtain ⟨s', hs', -⟩ := exists_saved_forks
  obtain ⟨hsavable, hdisjoint⟩ := (saveAllRoutingSolutions_iff (fun _ => zero_le_one)
    (fun n _ => pinsFit_forks n) (by decide) fun _ => rfl).1 ⟨s', hs'⟩
  have hmem : ∀ n : Fin 2, n ∈ [(1 : Fin 2), (0 : Fin 2)] := by decide
  exact ⟨by decide, ⟨s', hs'⟩, fun n => hsavable n (hmem n),
    List.rel_of_pairwise_cons hdisjoint List.mem_cons_self⟩

/-- **What is saved**, in whatever order: every net is routed on its own nodes, and the routing is
the same in every other order. -/
theorem saveAllRoutingSolutions_routes {R : AStarRoute ℚ} {sol : Solution R.database}
    {s s' : SaveState R.database} {order : List R.database.NetId} (hcost : ∀ r, 0 ≤ R.baseCost r)
    (hfits : ∀ n ∈ order, R.PinsFit sol n) (horder : order.Nodup)
    (hunsaved : ∀ v, s.nodeRoutingResults v = .init)
    (h : R.saveAllRoutingSolutions sol order s = some s') :
    (∀ n ∈ order, R.SavedNet sol n s') ∧
    ∀ order', order'.Perm order → ∃ t', R.saveAllRoutingSolutions sol order' s = some t' ∧
      t'.nodeRoutingResults = s'.nodeRoutingResults := by
  have hinv := (savedAll_nil hunsaved).run hcost hfits horder h
  refine ⟨fun n hn => hinv.savedNet hn, fun order' hperm => ?_⟩
  have hfits' : ∀ n ∈ order', R.PinsFit sol n := fun n hn => hfits n (hperm.mem_iff.1 hn)
  have horder' : order'.Nodup := hperm.nodup_iff.2 horder
  have hsome : ∃ t', runAll (R.saveOneNet sol) order' s = some t' := by
    obtain ⟨hsavable, hpair, -⟩ :=
      ((savedAll_nil hunsaved).isSome_iff hcost hfits horder).1 ⟨s', h⟩
    refine ((savedAll_nil hunsaved).isSome_iff hcost hfits' horder').2
      ⟨fun n hn => hsavable n (hperm.mem_iff.1 hn), ?_, fun m hm => absurd hm List.not_mem_nil⟩
    exact hperm.symm.pairwise hpair fun hdisj => List.disjoint_symm hdisj
  obtain ⟨t', ht'⟩ := hsome
  have hinv' := (savedAll_nil hunsaved).run hcost hfits' horder' ht'
  refine ⟨t', ht', funext fun u => ?_⟩
  by_cases hu : ∃ n ∈ order, u ∈ R.netNodes sol n
  · obtain ⟨n, hn, hu⟩ := hu
    rw [hinv.alone n hn u hu, hinv'.alone n (hperm.mem_iff.2 hn) u hu]
  · have hnone : ∀ n ∈ order, u ∉ R.netNodes sol n := fun n hn hun => hu ⟨n, hn, hun⟩
    rw [hinv.rest u hnone, hinv'.rest u fun n hn => hnone n (hperm.mem_iff.1 hn)]

theorem saveAllRoutingSolutions_routes_forks :
    ∃ s' t', forks.saveAllRoutingSolutions forksSolution [(1 : Fin 2), (0 : Fin 2)] forksUnsaved =
        some s' ∧
      forks.saveAllRoutingSolutions forksSolution [(0 : Fin 2), (1 : Fin 2)] forksUnsaved = some t' ∧
      (∀ n : Fin 2, forks.SavedNet forksSolution n s') ∧
      t'.nodeRoutingResults = s'.nodeRoutingResults := by
  obtain ⟨s', hs', -⟩ := exists_saved_forks
  obtain ⟨hsaved, hperm⟩ := saveAllRoutingSolutions_routes (fun _ => zero_le_one)
    (fun n _ => pinsFit_forks n) (by decide) (fun _ => rfl) hs'
  obtain ⟨t', ht', heq⟩ := hperm [(0 : Fin 2), (1 : Fin 2)] (by decide)
  have hmem : ∀ n : Fin 2, n ∈ [(1 : Fin 2), (0 : Fin 2)] := by decide
  exact ⟨s', t', hs', ht', fun n => hsaved n (hmem n), heq⟩

end AStarRoute

end Potter
