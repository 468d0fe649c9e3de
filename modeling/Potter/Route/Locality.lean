import Potter.Lib.Footprint
import Potter.Lib.SearchFootprint
import Potter.Route.StableFirst

/-!
# What the routing methods read and write

The state of the router as a memory (`RouterState.memory`), and the region a routing step stays in:
the connections and the user maps of its net, the entries of its thread's working memory, and, when
it works at once, occupancies and present costs; all nodes it touches lie in a set `In`, which is
the whole graph or the box of the connection (`Scope.region`).

The search is the part where this takes an argument: it reads the marks of neighbours before it
knows that they lie in the box (`search_agree`).
-/

namespace Potter

open Lib
open BestFirst (Problem Outcome Mark)

/-! ## The state as a memory -/

/-- The locations of a router's state. -/
inductive Loc {K : Type} (D : Database K)
  | ctl
  | occupancy (r : D.NodeId)
  | stamp (r : D.NodeId)
  | presentCost (r : D.NodeId)
  | historicalCost (r : D.NodeId)
  | conn (c : D.ConnId)
  | net (n : D.NetId)
  | info (tid : Nat) (r : D.NodeId)
  | routed
  | failed
  | overUsed
  | logged

/-- What a location holds. -/
def Loc.Val {K : Type} {D : Database K} : Loc D → Type
  | .ctl => Control K
  | .occupancy _ => Int
  | .stamp _ => Int
  | .presentCost _ => K
  | .historicalCost _ => K
  | .conn _ => ConnState D.NodeId
  | .net _ => NetUsers D.NodeId
  | .info _ _ => NodeInfo D.NodeId K
  | .routed => Int
  | .failed => Int
  | .overUsed => Int
  | .logged => Int

namespace RouterState

variable {K : Type} {D : Database K}

/-- The contents of a location. -/
def get (st : RouterState D) : (l : Loc D) → l.Val
  | .ctl => st.ctl
  | .occupancy r => (st.node r).occupancy
  | .stamp r => (st.node r).needUpdateBatchStamp
  | .presentCost r => (st.node r).presentCongestionCost
  | .historicalCost r => (st.node r).historicalCongestionCost
  | .conn c => st.conn c
  | .net n => st.net n
  | .info tid r => st.info tid r
  | .routed => st.routedConnectionNum
  | .failed => st.failRouteNum
  | .overUsed => st.numOverUsedRNodes
  | .logged => st.loggedFailures

theorem ext_get {s t : RouterState D} (h : ∀ l, s.get l = t.get l) : s = t := by
  have hnode : s.node = t.node := by
    funext r
    have h1 : (s.node r).occupancy = (t.node r).occupancy := h (.occupancy r)
    have h2 : (s.node r).needUpdateBatchStamp = (t.node r).needUpdateBatchStamp := h (.stamp r)
    have h3 : (s.node r).presentCongestionCost = (t.node r).presentCongestionCost :=
      h (.presentCost r)
    have h4 : (s.node r).historicalCongestionCost = (t.node r).historicalCongestionCost :=
      h (.historicalCost r)
    cases hs : s.node r
    cases ht : t.node r
    simp_all
  have hinfo : s.info = t.info := by
    funext tid r
    exact h (.info tid r)
  obtain ⟨sctl, snode, sconn, snet, sinfo, srouted, sfailed, sover, slogged⟩ := s
  obtain ⟨tctl, tnode, tconn, tnet, tinfo, trouted, tfailed, tover, tlogged⟩ := t
  dsimp only at hnode hinfo
  subst hnode hinfo
  obtain rfl : sctl = tctl := h .ctl
  obtain rfl : sconn = tconn := funext fun c => h (.conn c)
  obtain rfl : snet = tnet := funext fun n => h (.net n)
  obtain rfl : srouted = trouted := h .routed
  obtain rfl : sfailed = tfailed := h .failed
  obtain rfl : sover = tover := h .overUsed
  obtain rfl : slogged = tlogged := h .logged
  rfl

variable (D) in
def memory : Memory (RouterState D) (Loc D) Loc.Val := ⟨get, ext_get⟩

end RouterState

/-- What routing steps do unseen: they count. -/
def countEffects {K : Type} (D : Database K) : Effects (Loc.Val (D := D))
  | .routed => Effect.adding
  | .failed => Effect.adding
  | .logged => Effect.adding
  | .ctl => Effect.none _
  | .occupancy _ => Effect.none _
  | .stamp _ => Effect.none _
  | .presentCost _ => Effect.none _
  | .historicalCost _ => Effect.none _
  | .conn _ => Effect.none _
  | .net _ => Effect.none _
  | .info _ _ => Effect.none _
  | .overUsed => Effect.none _

/-! ## The region of routing steps -/

/-- Whom a routing step works for and where: the connections it may change, their net, the thread
whose working memory it uses, the nodes it touches, and whether it changes counts at once. -/
structure Scope {K : Type} (D : Database K) where
  conns : D.ConnId → Prop
  net : D.NetId
  tid : Nat
  In : D.NodeId → Prop
  immediate : Bool

namespace Scope

variable {K : Type} {D : Database K} (σ : Scope D)

/-- Historical costs and the control variables are only read. Occupancies and present costs are
only read by steps that wait for a barrier. -/
def region : Region (countEffects D) where
  reads
    | .ctl => True
    | .occupancy r => σ.In r
    | .presentCost r => σ.In r
    | .historicalCost r => σ.In r
    | .conn c => σ.conns c
    | .net n => n = σ.net
    | .info tid r => tid = σ.tid ∧ σ.In r
    | _ => False
  writes
    | .occupancy r => σ.immediate = true ∧ σ.In r
    | .presentCost r => σ.immediate = true ∧ σ.In r
    | .conn c => σ.conns c
    | .net n => n = σ.net
    | .info tid r => tid = σ.tid ∧ σ.In r
    | _ => False
  reads_of_writes {l} h := by
    cases l with
    | occupancy r => exact h.2
    | presentCost r => exact h.2
    | conn c => exact h
    | net n => exact h
    | info tid r => exact h
    | ctl => exact h.elim
    | stamp r => exact h.elim
    | historicalCost r => exact h.elim
    | routed => exact h.elim
    | failed => exact h.elim
    | overUsed => exact h.elim
    | logged => exact h.elim
  eq_id {l} h f hf := by
    cases l with
    | routed => exact h.elim
    | failed => exact h.elim
    | logged => exact h.elim
    | ctl => exact hf
    | occupancy r => exact hf
    | stamp r => exact hf
    | presentCost r => exact hf
    | historicalCost r => exact hf
    | conn c => exact hf
    | net n => exact hf
    | info tid r => exact hf
    | overUsed => exact hf

/-- Two states are the same where a step of the scope may look. -/
abbrev Agree (s s' : RouterState D) : Prop := (RouterState.memory D).Agree σ.region.reads s s'

/-- The step stays in the region of the scope. -/
abbrev Keeps (P : RouterState D → Prop) (f : RouterState D → Option (RouterState D)) : Prop :=
  Confined (RouterState.memory D) σ.region P f

/-- The step with a result stays in the region of the scope. -/
abbrev KeepsVal {A : Type} (P : RouterState D → Prop)
    (f : RouterState D → Option (A × RouterState D)) : Prop :=
  ConfinedVal (RouterState.memory D) σ.region P f

section Agree

variable {σ} {s s' : RouterState D} (h : σ.Agree s s')
include h

theorem Agree.ctl : s'.ctl = s.ctl := (h .ctl trivial).symm

theorem Agree.occupancy {r : D.NodeId} (hr : σ.In r) :
    (s'.node r).occupancy = (s.node r).occupancy :=
  (h (.occupancy r) hr).symm

theorem Agree.presentCost {r : D.NodeId} (hr : σ.In r) :
    (s'.node r).presentCongestionCost = (s.node r).presentCongestionCost :=
  (h (.presentCost r) hr).symm

theorem Agree.historicalCost {r : D.NodeId} (hr : σ.In r) :
    (s'.node r).historicalCongestionCost = (s.node r).historicalCongestionCost :=
  (h (.historicalCost r) hr).symm

theorem Agree.conn {c : D.ConnId} (hc : σ.conns c) : s'.conn c = s.conn c :=
  (h (.conn c) hc).symm

theorem Agree.net : s'.net σ.net = s.net σ.net := (h (.net σ.net) rfl).symm

theorem Agree.info {r : D.NodeId} (hr : σ.In r) : s'.info σ.tid r = s.info σ.tid r :=
  (h (.info σ.tid r) ⟨rfl, hr⟩).symm

end Agree

/-! ## Steps that write one part of the state -/

section Basic

variable {σ} {P : RouterState D → Prop}

/-- What a step leaves as it was agrees if it agreed before. -/
theorem agree_of_same {s s' : RouterState D} (h : σ.Agree s s') {l : Loc D}
    (hl : σ.region.writes l) : s.get l = s'.get l :=
  h l (σ.region.reads_of_writes hl)

theorem keeps_withConn {c : D.ConnId} (hc : σ.conns c)
    {F : RouterState D → ConnState D.NodeId} (hF : ∀ s s', σ.Agree s s' → F s' = F s) :
    σ.Keeps P fun s => some (s.withConn c (F s)) := by
  refine Confined.total (fun _ => id) (fun l => (countEffects D l).id_mem) ?_ ?_
  · intro s l hl
    cases l with
    | conn d =>
      have hd : d ≠ c := fun e => hl (e ▸ hc)
      exact Function.update_of_ne hd _ _
    | _ => rfl
  · intro s s' h l hl
    cases l with
    | conn d =>
      show Function.update s.conn c (F s) d = Function.update s'.conn c (F s') d
      by_cases hd : d = c
      · subst hd
        rw [Function.update_self, Function.update_self, hF s s' h]
      · rw [Function.update_of_ne hd, Function.update_of_ne hd]
        exact agree_of_same h hl
    | _ => exact agree_of_same h hl

theorem keeps_withNet {F : RouterState D → NetUsers D.NodeId}
    (hF : ∀ s s', σ.Agree s s' → F s' = F s) :
    σ.Keeps P fun s => some (s.withNet σ.net (F s)) := by
  refine Confined.total (fun _ => id) (fun l => (countEffects D l).id_mem) ?_ ?_
  · intro s l hl
    cases l with
    | net m =>
      have hm : m ≠ σ.net := hl
      exact Function.update_of_ne hm _ _
    | _ => rfl
  · intro s s' h l hl
    cases l with
    | net m =>
      obtain rfl : m = σ.net := hl
      show Function.update s.net σ.net (F s) σ.net = Function.update s'.net σ.net (F s') σ.net
      rw [Function.update_self, Function.update_self, hF s s' h]
    | _ => exact agree_of_same h hl

/-- The working memory of the thread, changed inside `In`. -/
theorem keeps_withInfo {F : RouterState D → D.NodeId → NodeInfo D.NodeId K}
    (hF : ∀ s s', σ.Agree s s' → ∀ r, σ.In r → F s' r = F s r)
    (hout : ∀ s r, ¬ σ.In r → F s r = s.info σ.tid r) :
    σ.Keeps P fun s => some (s.withInfo σ.tid (F s)) := by
  refine Confined.total (fun _ => id) (fun l => (countEffects D l).id_mem) ?_ ?_
  · intro s l hl
    cases l with
    | info t r =>
      show Function.update s.info σ.tid (F s) t r = s.info t r
      by_cases ht : t = σ.tid
      · subst ht
        rw [Function.update_self]
        exact hout s r fun hr => hl ⟨rfl, hr⟩
      · rw [Function.update_of_ne ht]
    | _ => rfl
  · intro s s' h l hl
    cases l with
    | info t r =>
      obtain ⟨rfl, hr⟩ : t = σ.tid ∧ σ.In r := hl
      show Function.update s.info σ.tid (F s) σ.tid r = Function.update s'.info σ.tid (F s') σ.tid r
      rw [Function.update_self, Function.update_self, hF s s' h r hr]
    | _ => exact agree_of_same h hl

/-- The occupancy and the present cost of one node. -/
theorem keeps_withNode (himm : σ.immediate = true) {r : D.NodeId} (hr : σ.In r)
    {F : RouterState D → NodeState K}
    (hF : ∀ s s', σ.Agree s s' → (F s').occupancy = (F s).occupancy ∧
      (F s').presentCongestionCost = (F s).presentCongestionCost)
    (hkeep : ∀ s, (F s).needUpdateBatchStamp = (s.node r).needUpdateBatchStamp ∧
      (F s).historicalCongestionCost = (s.node r).historicalCongestionCost) :
    σ.Keeps P fun s => some (s.withNode r (F s)) := by
  refine Confined.total (fun _ => id) (fun l => (countEffects D l).id_mem) ?_ ?_
  · intro s l hl
    cases l with
    | occupancy a =>
      have ha : a ≠ r := fun e => hl ⟨himm, e ▸ hr⟩
      exact congrArg NodeState.occupancy (Function.update_of_ne ha _ _)
    | presentCost a =>
      have ha : a ≠ r := fun e => hl ⟨himm, e ▸ hr⟩
      exact congrArg NodeState.presentCongestionCost (Function.update_of_ne ha _ _)
    | stamp a =>
      show (Function.update s.node r (F s) a).needUpdateBatchStamp = (s.node a).needUpdateBatchStamp
      by_cases ha : a = r
      · subst ha
        rw [Function.update_self]
        exact (hkeep s).1
      · rw [Function.update_of_ne ha]
    | historicalCost a =>
      show (Function.update s.node r (F s) a).historicalCongestionCost =
        (s.node a).historicalCongestionCost
      by_cases ha : a = r
      · subst ha
        rw [Function.update_self]
        exact (hkeep s).2
      · rw [Function.update_of_ne ha]
    | _ => rfl
  · intro s s' h l hl
    cases l with
    | occupancy a =>
      show (Function.update s.node r (F s) a).occupancy =
        (Function.update s'.node r (F s') a).occupancy
      by_cases ha : a = r
      · subst ha
        rw [Function.update_self, Function.update_self, (hF s s' h).1]
      · rw [Function.update_of_ne ha, Function.update_of_ne ha]
        exact agree_of_same h hl
    | presentCost a =>
      show (Function.update s.node r (F s) a).presentCongestionCost =
        (Function.update s'.node r (F s') a).presentCongestionCost
      by_cases ha : a = r
      · subst ha
        rw [Function.update_self, Function.update_self, (hF s s' h).2]
      · rw [Function.update_of_ne ha, Function.update_of_ne ha]
        exact agree_of_same h hl
    | stamp a => exact hl.elim
    | historicalCost a => exact hl.elim
    | _ => exact agree_of_same h hl

/-- Counting an attempt. -/
theorem keeps_countRouted :
    σ.Keeps P fun s => some { s with routedConnectionNum := s.routedConnectionNum + 1 } := by
  refine Confined.total (fun | .routed => fun x : Int => x + 1 | _ => id) ?_ ?_ ?_
  · intro l
    cases l with
    | routed => exact ⟨1, rfl⟩
    | _ => exact (countEffects D _).id_mem
  · intro s l _
    cases l <;> rfl
  · intro s s' h l hl
    cases l with
    | routed => exact hl.elim
    | _ => exact agree_of_same h hl

/-- Logging a failure. -/
theorem keeps_logFailure : σ.Keeps P fun s => some s.logFailure := by
  refine Confined.total (fun | .logged => fun x : Int => x + 1 | _ => id) ?_ ?_ ?_
  · intro l
    cases l with
    | logged => exact ⟨1, rfl⟩
    | _ => exact (countEffects D _).id_mem
  · intro s l _
    cases l <;> rfl
  · intro s s' h l hl
    cases l with
    | logged => exact hl.elim
    | _ => exact agree_of_same h hl

end Basic

end Scope

namespace AStarRoute

variable {K : Type} [Arith K] {R : AStarRoute K} {σ : Scope R.database}

/-! ## The search -/

/-- The scope of a step that routes `c`: it may change `c`, works for its net, and holds every node
the search can enter. -/
structure Covers (σ : Scope R.database) (c : R.database.ConnId) : Prop where
  conns : σ.conns c
  net : σ.net = R.database.netOf c
  source : σ.In (R.database.source c)
  sink : σ.In (R.database.sink c)
  inBox : ∀ r, R.database.InBox c r → σ.In r

section Search

variable {c : R.database.ConnId} {sync : Bool} {s s' : RouterState R.database}

theorem problem_within (hc : Covers σ c) : (R.problem .own s c σ.tid sync).Within σ.In := by
  refine ⟨hc.source, hc.sink, fun v hv t => ?_⟩
  have hbox : ¬ R.database.InBox c v := fun h => hv (hc.inBox v h)
  simp [problem, childVerdict, isAccessible, hbox]

theorem evaluateChild_congr (hc : Covers σ c) (h : σ.Agree s s') {v : R.database.NodeId}
    (hv : σ.In v) (t : Bool) :
    R.evaluateChild .own s' c σ.tid sync v t = R.evaluateChild .own s c σ.tid sync v t := by
  have hnet : s'.net (R.database.netOf c) = s.net (R.database.netOf c) := hc.net ▸ h.net
  simp only [evaluateChild, getNodeCost, Reads.own, hnet, h.ctl, h.info hv, h.occupancy hv,
    h.presentCost hv, h.historicalCost hv]

theorem childVerdict_congr (hc : Covers σ c) (h : σ.Agree s s') {v : R.database.NodeId}
    (hv : σ.In v) (t : Bool) :
    R.childVerdict .own s' c σ.tid sync v t = R.childVerdict .own s c σ.tid sync v t := by
  have hnet : s'.net (R.database.netOf c) = s.net (R.database.netOf c) := hc.net ▸ h.net
  simp only [childVerdict, evaluateChild_congr hc h hv, hnet]

theorem problem_sameOn (hc : Covers σ c) (h : σ.Agree s s') :
    (R.problem .own s c σ.tid sync).SameOn σ.In (R.problem .own s' c σ.tid sync) := by
  refine ⟨?_, rfl, rfl, rfl, fun v hv => ?_⟩
  · show R.connectionUniqueId s' c = R.connectionUniqueId s c
    rw [connectionUniqueId, connectionUniqueId, h.ctl]
  · funext t
    exact childVerdict_congr hc h hv t

/-- **The search depends on the region only.** -/
theorem search_agree (hc : Covers σ c) (h : σ.Agree s s') :
    (R.search .own s c σ.tid sync).AgreeOn σ.In (R.search .own s' c σ.tid sync) := by
  rw [search, search, searchLoop_eq, searchLoop_eq]
  refine BestFirst.loop_agree (problem_within hc) (problem_within hc) (problem_sameOn hc h) _ _ ?_
  refine BestFirst.start_agree (problem_within hc) (problem_sameOn hc h) fun v hv => ?_
  show (s'.info σ.tid v).toMark = (s.info σ.tid v).toMark
  rw [h.info hv]

/-- The search does not write outside the region. -/
theorem search_marks_outside (hc : Covers σ c) :
    (R.search .own s c σ.tid sync).All fun m => ∀ v, ¬ σ.In v → m v = s.marks σ.tid v := by
  rw [search, searchLoop_eq]
  exact BestFirst.search_outside (problem_within hc) _ _

/-- A path that was found lies in the region. -/
theorem path_inside (hc : Covers σ c) {marks : R.database.NodeId → Mark R.database.NodeId K}
    {k : Nat} (h : R.search .own s c σ.tid sync = .found marks k) {p : List R.database.NodeId}
    (ht : BestFirst.trace marks (R.database.source c) 9999 (R.database.sink c) = some p) :
    ∀ v ∈ p, σ.In v := by
  intro v hv
  rcases (isPath_of_found h ht).inBox v hv with rfl | rfl | hbox
  · exact hc.sink
  · exact hc.source
  · exact hc.inBox v hbox

end Search

/-! ## Counts, occupancies and costs -/

section Nodes

variable {P : RouterState R.database → Prop} {r : R.database.NodeId}

/-- A change of a node's occupancy and the present cost that follows from it. -/
theorem keeps_recount (himm : σ.immediate = true) (hr : σ.In r)
    {g : NodeState K → NodeState K} (hocc : ∀ a b : NodeState K, a.occupancy = b.occupancy →
      (g a).occupancy = (g b).occupancy)
    (hg : ∀ a, (g a).needUpdateBatchStamp = a.needUpdateBatchStamp ∧
      (g a).historicalCongestionCost = a.historicalCongestionCost) :
    σ.Keeps P fun s => some (s.withNode r ((g (s.node r)).updatePresentCongestionCost
      (g (s.node r)).occupancy s.ctl.presentCongestionFactor)) := by
  refine Scope.keeps_withNode himm hr (fun s s' h => ?_) fun s => ?_
  · have ho := hocc _ _ (h.occupancy hr)
    unfold NodeState.updatePresentCongestionCost
    rw [ho, h.ctl]
    split
    · exact ⟨ho, rfl⟩
    · exact ⟨ho, rfl⟩
  · unfold NodeState.updatePresentCongestionCost
    split
    · exact hg _
    · exact hg _

/-- A change of a user count, with the change of the occupancy that it may bring. -/
theorem keeps_recountUser (himm : σ.immediate = true) (hr : σ.In r)
    (op : NetUsers R.database.NodeId → NetUsers R.database.NodeId × Bool)
    {g : NodeState K → NodeState K} (hocc : ∀ a b : NodeState K, a.occupancy = b.occupancy →
      (g a).occupancy = (g b).occupancy)
    (hg : ∀ a, (g a).needUpdateBatchStamp = a.needUpdateBatchStamp ∧
      (g a).historicalCongestionCost = a.historicalCongestionCost) :
    σ.Keeps P fun s => some ((s.withNet σ.net (op (s.net σ.net)).1).withNode r
      ((if (op (s.net σ.net)).2 then g (s.node r) else s.node r).updatePresentCongestionCost
        (if (op (s.net σ.net)).2 then g (s.node r) else s.node r).occupancy
        s.ctl.presentCongestionFactor)) := by
  refine Confined.read (r := fun s : RouterState R.database => op (s.net σ.net))
    (F := fun u s => some ((s.withNet σ.net u.1).withNode r
      ((if u.2 then g (s.node r) else s.node r).updatePresentCongestionCost
        (if u.2 then g (s.node r) else s.node r).occupancy s.ctl.presentCongestionFactor)))
    (fun s s' _ h => congrArg op (Scope.Agree.net h)) fun u => ?_
  refine Confined.bind (Q := fun _ => True) (Scope.keeps_withNet fun _ _ _ => rfl)
    (fun _ _ _ _ => trivial) (keeps_recount himm hr (g := fun a => if u.2 then g a else a) ?_ ?_)
  · intro a b hab
    split
    · exact hocc a b hab
    · exact hab
  · intro a
    split
    · exact hg a
    · exact ⟨rfl, rfl⟩

theorem keeps_useNode (himm : σ.immediate = true) (hr : σ.In r) :
    σ.Keeps P fun s => some (R.useNode .own σ.net s r) :=
  keeps_recountUser himm hr (fun u => u.incrementUser r) (g := NodeState.incrementOccupancy)
    (fun _ _ h => congrArg (· + 1) h) fun _ => ⟨rfl, rfl⟩

theorem keeps_leaveNode (himm : σ.immediate = true) (hr : σ.In r) :
    σ.Keeps P fun s => some (R.leaveNode .own σ.net s r) :=
  keeps_recountUser himm hr (fun u => u.decrementUser r) (g := NodeState.decrementOccupancy)
    (fun _ _ h => congrArg (· - 1) h) fun _ => ⟨rfl, rfl⟩

theorem keeps_preDecrement : σ.Keeps P (R.preDecrement σ.net r) := by
  refine Confined.read (r := fun s : RouterState R.database => s.net σ.net)
    (F := fun u s => (u.preDecrementUser r).map (s.withNet σ.net)) (fun _ _ _ h => Scope.Agree.net h)
    fun u => ?_
  cases u.preDecrementUser r with
  | none =>
    intro s t _ h
    cases h
  | some v => exact Scope.keeps_withNet fun _ _ _ => rfl

theorem keeps_preIncrement : σ.Keeps P fun s => some (R.preIncrement σ.net s r) := by
  refine Scope.keeps_withNet fun s s' h => ?_
  rw [h.net]

/-- A loop over nodes of the region. -/
theorem keeps_foldl {f : RouterState R.database → R.database.NodeId → RouterState R.database}
    {l : List R.database.NodeId} (h : ∀ r ∈ l, σ.Keeps (fun _ => True) fun s => some (f s r)) :
    σ.Keeps P fun s => some (l.foldl f s) := by
  have hrun : σ.Keeps (fun _ => True) (runAll (fun r s => some (f s r)) l) := Confined.runAll h
  rw [show runAll (fun r s => some (f s r)) l = fun s => some (l.foldl f s) from
    funext (runAll_some l)] at hrun
  exact hrun.mono fun _ _ => trivial

end Nodes

/-! ## An attempt as a search and a commit -/

variable (R) in
/-- The search of an attempt with the marks it leaves. The result is the path found and the number
of nodes popped, or nothing. -/
def searchStep (c : R.database.ConnId) (tid : Nat) (sync : Bool) (st : RouterState R.database) :
    Option (Option (Nat × List R.database.NodeId) × RouterState R.database) :=
  match R.search .own st c tid sync with
  | .halted => none
  | .exhausted f => some (none, st.withMarks tid f.marks)
  | .found marks k =>
    (BestFirst.trace marks (R.database.source c) 9999 (R.database.sink c)).map fun path =>
      (some (k, path), st.withMarks tid marks)

variable (R) in
/-- What an attempt does with the result of its search. -/
def finishRoute (c : R.database.ConnId) (sync : Bool) :
    Option (Nat × List R.database.NodeId) → RouterState R.database →
      Option (Bool × RouterState R.database)
  | none, st => some (false, st)
  | some (k, path), st =>
    if ((st.conn c).rnodes ++ path).length > 1 then
      some (true, R.commitRoute .own c sync k (appendPath c path st))
    else none

theorem routeOneConnection_eq (c : R.database.ConnId) (tid : Nat) (sync : Bool)
    (st : RouterState R.database) :
    R.routeOneConnection .own c tid sync st =
      (R.searchStep c tid sync (R.beginRoute c st)).bind fun p => R.finishRoute c sync p.1 p.2 := by
  simp only [routeOneConnection, searchStep]
  cases hs : R.search .own (R.beginRoute c st) c tid sync with
  | halted => rfl
  | exhausted f =>
    dsimp only
    rw [if_pos (search_exhausted hs)]
    rfl
  | found marks k =>
    dsimp only
    rw [saveRouting, RouterState.marks_withMarks]
    cases BestFirst.trace marks (R.database.source c) 9999 (R.database.sink c) with
    | none => rfl
    | some path =>
      simp only [Option.bind_some, Option.map_some, finishRoute]
      split <;> rfl

section Attempt

variable {c : R.database.ConnId} {sync : Bool}

theorem searchStep_spec {tid : Nat} {s t : RouterState R.database}
    {o : Option (Nat × List R.database.NodeId)} (h : R.searchStep c tid sync s = some (o, t)) :
    t.conn = s.conn ∧ ∀ k path, o = some (k, path) →
      ∃ marks, R.search .own s c tid sync = .found marks k ∧
        BestFirst.trace marks (R.database.source c) 9999 (R.database.sink c) = some path := by
  simp only [searchStep] at h
  split at h
  · cases h
  · cases h
    exact ⟨rfl, fun k path ho => by cases ho⟩
  · rename_i marks k hs
    obtain ⟨path, hp, he⟩ := Option.map_eq_some_iff.1 h
    cases he
    refine ⟨rfl, fun k' path' ho => ?_⟩
    cases ho
    exact ⟨marks, hs, hp⟩

/-- Writing marks that agree inside the region and change nothing outside. -/
theorem withMarks_moved {st : RouterState R.database}
    {m : R.database.NodeId → Mark R.database.NodeId K}
    (hm : ∀ v, ¬ σ.In v → m v = st.marks σ.tid v) :
    (RouterState.memory R.database).Moved σ.region (fun _ => id) st (st.withMarks σ.tid m) := by
  intro l hl
  cases l with
  | info t r =>
    show Function.update st.info σ.tid _ t r = st.info t r
    by_cases ht : t = σ.tid
    · subst ht
      rw [Function.update_self, hm r fun hr => hl ⟨rfl, hr⟩]
      rfl
    · rw [Function.update_of_ne ht]
  | _ => rfl

theorem withMarks_agree {s s' : RouterState R.database} (h : σ.Agree s s')
    {m m' : R.database.NodeId → Mark R.database.NodeId K} (hm : ∀ v, σ.In v → m' v = m v) :
    (RouterState.memory R.database).Agree σ.region.writes (s.withMarks σ.tid m)
      (s'.withMarks σ.tid m') := by
  intro l hl
  cases l with
  | info t r =>
    obtain ⟨rfl, hr⟩ : t = σ.tid ∧ σ.In r := hl
    show Function.update s.info σ.tid _ σ.tid r = Function.update s'.info σ.tid _ σ.tid r
    rw [Function.update_self, Function.update_self, hm r hr, h.info hr]
  | _ => exact Scope.agree_of_same h hl

/-- **A search stays in the region.** -/
theorem keeps_searchStep (hc : Covers σ c) {P : RouterState R.database → Prop} :
    σ.KeepsVal P (R.searchStep c σ.tid sync) := by
  intro s a t _ h
  have hout : (R.search .own s c σ.tid sync).All _ := search_marks_outside hc
  have hagree : ∀ s', σ.Agree s s' → (R.search .own s c σ.tid sync).AgreeOn σ.In
    (R.search .own s' c σ.tid sync) := fun s' hs => search_agree hc hs
  have hout' : ∀ s', (R.search .own s' c σ.tid sync).All _ := fun s' => search_marks_outside hc
  refine ⟨fun _ => id, fun l => (countEffects _ l).id_mem, ?_⟩
  simp only [searchStep] at h ⊢
  cases hs : R.search .own s c σ.tid sync with
  | halted =>
    simp only [hs] at h
    cases h
  | exhausted f =>
    simp only [hs, Option.some.injEq, Prod.mk.injEq] at h hout
    obtain ⟨rfl, rfl⟩ := h
    refine ⟨withMarks_moved hout, fun s' ha => ?_⟩
    have hsearch := hagree s' ha
    have hmarks := hout' s'
    rw [hs] at hsearch
    cases hs' : R.search .own s' c σ.tid sync with
    | exhausted g =>
      rw [hs'] at hsearch hmarks
      cases hsearch with
      | exhausted hfg =>
        exact ⟨_, rfl, withMarks_agree ha hfg.marks, withMarks_moved hmarks⟩
    | halted => rw [hs'] at hsearch; cases hsearch
    | found m k => rw [hs'] at hsearch; cases hsearch
  | found m k =>
    simp only [hs, Option.map_eq_some_iff, Prod.mk.injEq] at h hout
    obtain ⟨path, hpath, rfl, rfl⟩ := h
    refine ⟨withMarks_moved hout, fun s' ha => ?_⟩
    have hsearch := hagree s' ha
    have hmarks := hout' s'
    rw [hs] at hsearch
    cases hs' : R.search .own s' c σ.tid sync with
    | found m' k' =>
      rw [hs'] at hsearch hmarks
      cases hsearch with
      | found hm =>
        have htrace : BestFirst.trace m' (R.database.source c) 9999 (R.database.sink c) = some path :=
          BestFirst.trace_congr hpath fun u hu => hm u (path_inside hc hs hpath u hu)
        refine ⟨_, ?_, withMarks_agree ha hm, withMarks_moved hmarks⟩
        simp only [htrace, Option.map_some]
    | halted => rw [hs'] at hsearch; cases hsearch
    | exhausted g => rw [hs'] at hsearch; cases hsearch

theorem keeps_beginRoute (hc : Covers σ c) {P : RouterState R.database → Prop} :
    σ.Keeps P fun s => some (R.beginRoute c s) := by
  refine Confined.bind (Q := fun _ => True) (f := fun s : RouterState R.database =>
    some (s.withConn c ((s.conn c).setRoutedThisIter true)))
    (Scope.keeps_withConn hc.conns fun s s' h => ?_) (fun _ _ _ _ => trivial)
    Scope.keeps_countRouted
  rw [h.conn hc.conns]

/-- The nodes of the route of `c` lie in the region. -/
def RouteInside (σ : Scope R.database) (c : R.database.ConnId) (s : RouterState R.database) : Prop :=
  ∀ r ∈ (s.conn c).rnodes, σ.In r

/-- **A commit of nodes of the region stays in it.** -/
theorem keeps_commitRoute (hc : Covers σ c) (hsync : sync = false → σ.immediate = true) (k : Nat) :
    σ.Keeps (RouteInside σ c) fun s => some (R.commitRoute .own c sync k s) := by
  cases sync with
  | true =>
    refine Confined.read (r := fun s : RouterState R.database => (s.conn c).rnodes)
      (F := fun l s => some ((l.foldl (R.preIncrement (R.database.netOf c)) s).withConn c
        { (l.foldl (R.preIncrement (R.database.netOf c)) s).conn c with
          isRouted := true, numNodesExplored := k,
          lastRoutedIter := (l.foldl (R.preIncrement (R.database.netOf c)) s).ctl.iter }))
      (fun s s' _ h => by rw [Scope.Agree.conn h hc.conns]) fun l => ?_
    refine Confined.bind (Q := fun _ => True)
      (f := fun s => some (l.foldl (R.preIncrement (R.database.netOf c)) s))
      (g := fun s => some (s.withConn c { s.conn c with
        isRouted := true, numNodesExplored := k, lastRoutedIter := s.ctl.iter }))
      (keeps_foldl fun r _ => ?_) (fun _ _ _ _ => trivial)
      (Scope.keeps_withConn hc.conns fun s s' h => ?_)
    · rw [← hc.net]
      exact keeps_preIncrement
    · rw [h.conn hc.conns, h.ctl]
  | false =>
    refine Confined.bind (Q := RouteInside σ c) (f := fun s : RouterState R.database =>
      some (s.withConn c ((s.conn c).setRouted true)))
      (g := fun s => some (R.updateUsersAndPresentCongestionCost .own s c))
      (Scope.keeps_withConn hc.conns fun s s' h => ?_) ?_ ?_
    · rw [h.conn hc.conns]
    · intro s t hs h
      cases h
      intro r hr
      rw [RouterState.withConn_conn, Function.update_self] at hr
      exact hs r hr
    · refine Confined.read (r := fun s : RouterState R.database => (s.conn c).rnodes)
        (F := fun l s => some (l.foldl (R.useNode .own (R.database.netOf c)) s))
        (fun s s' _ h => by rw [Scope.Agree.conn h hc.conns]) fun l => ?_
      intro s t hs h
      refine keeps_foldl (P := fun _ => True) (fun r hr => ?_) s t trivial h
      rw [← hc.net]
      exact keeps_useNode (hsync rfl) (hs.1 r (hs.2 ▸ hr))

/-- What becomes of a path of the region stays in it. -/
theorem keeps_finishRoute (hc : Covers σ c) (hsync : sync = false → σ.immediate = true)
    (o : Option (Nat × List R.database.NodeId)) :
    σ.KeepsVal (fun s => RouteInside σ c s ∧ ∀ k path, o = some (k, path) → ∀ v ∈ path, σ.In v)
      (R.finishRoute c sync o) := by
  cases o with
  | none => exact Confined.pure.returning false
  | some p =>
    obtain ⟨k, path⟩ := p
    have hcommit : σ.Keeps (fun s => RouteInside σ c s ∧ ∀ v ∈ path, σ.In v) fun s =>
        if ((s.conn c).rnodes ++ path).length > 1 then
          some (R.commitRoute .own c sync k (appendPath c path s)) else none := by
      refine Confined.read (r := fun s : RouterState R.database => (s.conn c).rnodes)
        (F := fun l s => if (l ++ path).length > 1 then
          some (R.commitRoute .own c sync k (appendPath c path s)) else none)
        (fun s s' _ h => by rw [Scope.Agree.conn h hc.conns]) fun l => ?_
      split
      · refine Confined.bind (Q := RouteInside σ c)
          (f := fun s : RouterState R.database => some (appendPath c path s))
          (Scope.keeps_withConn hc.conns fun s s' h => ?_) ?_ (keeps_commitRoute hc hsync k)
        · rw [h.conn hc.conns]
        · intro s t hs h
          cases h
          intro r hr
          simp only [appendPath, RouterState.withConn_conn, Function.update_self,
            List.mem_append] at hr
          exact hr.elim (hs.1.1 r) (hs.1.2 r)
      · intro s t _ h
        cases h
    have hval := (hcommit.mono (P := fun s => RouteInside σ c s ∧ ∀ k' path',
      some (k, path) = some (k', path') → ∀ v ∈ path', σ.In v)
      fun s hs => ⟨hs.1, hs.2 k path rfl⟩).returning true
    have heq : R.finishRoute c sync (some (k, path)) = fun s =>
        (if ((s.conn c).rnodes ++ path).length > 1 then
          some (R.commitRoute .own c sync k (appendPath c path s)) else none).map (Prod.mk true) := by
      funext s
      simp only [finishRoute]
      split <;> rfl
    rw [heq]
    exact hval

variable (sync) in
/-- **An attempt stays in the region.** -/
theorem keeps_routeOneConnection (hc : Covers σ c) (hsync : sync = false → σ.immediate = true) :
    σ.KeepsVal (RouteInside σ c) (R.routeOneConnection .own c σ.tid sync) := by
  have hsearch : σ.KeepsVal (RouteInside σ c)
      fun s => R.searchStep c σ.tid sync (R.beginRoute c s) :=
    (keeps_beginRoute hc).bindVal (Q := fun _ => True) (fun _ _ _ _ => trivial)
      (keeps_searchStep hc)
  rw [show R.routeOneConnection .own c σ.tid sync = fun s =>
    (R.searchStep c σ.tid sync (R.beginRoute c s)).bind fun p => R.finishRoute c sync p.1 p.2 from
    funext (routeOneConnection_eq c σ.tid sync)]
  refine hsearch.bindVal (Q := fun o s => RouteInside σ c s ∧
    ∀ k path, o = some (k, path) → ∀ v ∈ path, σ.In v) ?_ fun o => keeps_finishRoute hc hsync o
  intro s o t hs h
  obtain ⟨hconn, hpath⟩ := searchStep_spec h
  refine ⟨fun r hr => ?_, fun k path ho => ?_⟩
  · rw [hconn] at hr
    simp only [beginRoute, RouterState.withConn_conn, Function.update_self] at hr
    exact hs r hr
  · obtain ⟨marks, hfound, htrace⟩ := hpath k path ho
    exact path_inside hc hfound htrace

/-- What `c` holds lies in the region. -/
theorem heldNodes_inside (hc : Covers σ c) {s : RouterState R.database} (hs : RouteInside σ c s) :
    ∀ r ∈ R.heldNodes s c, σ.In r := by
  intro r hr
  unfold heldNodes at hr
  split at hr
  · rw [List.mem_singleton.1 hr]
    exact hc.sink
  · exact hs r hr

/-- The nodes a rip-up releases. -/
theorem keeps_release (hc : Covers σ c) (hsync : sync = false → σ.immediate = true) :
    σ.Keeps (RouteInside σ c) fun s =>
      if sync then runAll (R.preDecrement (R.database.netOf c)) (R.heldNodes s c) s
      else some ((R.heldNodes s c).foldl (R.leaveNode .own (R.database.netOf c)) s) := by
  refine Confined.read (r := fun s => R.heldNodes s c)
    (F := fun l s => if sync then runAll (R.preDecrement (R.database.netOf c)) l s
      else some (l.foldl (R.leaveNode .own (R.database.netOf c)) s))
    (fun s s' _ h => by rw [heldNodes, heldNodes, Scope.Agree.conn h hc.conns]) fun l => ?_
  rw [← hc.net]
  cases sync with
  | true => exact (Confined.runAll fun r _ => keeps_preDecrement).mono fun _ _ => trivial
  | false =>
    intro s t hs h
    refine keeps_foldl (P := fun _ => True) (fun r hr => ?_) s t trivial h
    exact keeps_leaveNode (hsync rfl) (heldNodes_inside hc hs.1 r (hs.2 ▸ hr))

variable (sync) in
/-- **A rip-up stays in the region.** -/
theorem keeps_ripup (hc : Covers σ c) (hsync : sync = false → σ.immediate = true) :
    σ.Keeps (RouteInside σ c) (R.ripup .own c sync) := by
  refine Confined.read (r := fun s : RouterState R.database => s.conn c)
    (F := fun x s => if x.rnodes = [] ∧ x.isRouted then none else
      (if sync then runAll (R.preDecrement (R.database.netOf c)) (R.heldNodes s c) s
        else some ((R.heldNodes s c).foldl (R.leaveNode .own (R.database.netOf c)) s)).map
          fun s => s.withConn c ((s.conn c).resetRoute.setRouted false))
    (fun s s' _ h => Scope.Agree.conn h hc.conns) fun x => ?_
  split
  · intro s t _ h
    cases h
  · have hrelease := (keeps_release hc hsync).mono (P := fun s => RouteInside σ c s ∧ s.conn c = x)
      fun s hs => hs.1
    have hreset : σ.Keeps (fun _ => True) fun s =>
        some (s.withConn c ((s.conn c).resetRoute.setRouted false)) :=
      Scope.keeps_withConn hc.conns fun s s' h => by rw [h.conn hc.conns]
    have hboth := hrelease.bind (fun _ _ _ _ => trivial) hreset
    simpa only [Option.map_eq_bind, Function.comp_def] using hboth

/-- Whether a connection has to be routed is a matter of its route. -/
theorem shouldRoute_congr (hc : Covers σ c) {s s' : RouterState R.database}
    (hs : RouteInside σ c s) (h : σ.Agree s s') :
    R.shouldRoute .own s' c = R.shouldRoute .own s c := by
  have hany : R.isCongested .own s' c = R.isCongested .own s c := by
    unfold isCongested
    rw [h.conn hc.conns, Bool.eq_iff_iff, List.any_eq_true, List.any_eq_true]
    refine exists_congr fun r => and_congr_right fun hr => ?_
    show decide (nodeCapacity < (s'.node r).occupancy) = true ↔
      decide (nodeCapacity < (s.node r).occupancy) = true
    rw [h.occupancy (hs r hr)]
  unfold shouldRoute
  rw [h.conn hc.conns, hany]

end Attempt

end AStarRoute

end Potter
