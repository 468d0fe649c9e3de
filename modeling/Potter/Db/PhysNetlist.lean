import Potter.Lib.RoseTree

/-!
# Route branches

The part of the physical netlist that holds the routing of a net: trees of route branches, each with
the segment it stands for. A member of a union is kept as the message stores it, the tag of the
active member next to the data of the others: reading an inactive member gives its stored data, and
writing a member makes it the active one.

`Netlist::copyBranch` copies a tree segment by segment.
-/

namespace Potter

open Lib

structure PhysBelPin where
  site : Nat
  bel : Nat
  pin : Nat
deriving DecidableEq, Repr

structure PhysSitePin where
  site : Nat
  pin : Nat
deriving DecidableEq, Repr

inductive PhysPIP.Which
  | noSite
  | site
deriving DecidableEq, Repr

structure PhysPIP where
  tile : Nat
  wire0 : Nat
  wire1 : Nat
  forward : Bool
  isFixed : Bool
  which : PhysPIP.Which
  getSite : Nat
deriving DecidableEq, Repr

namespace PhysPIP

/-- A new PIP. -/
def init : PhysPIP := ⟨0, 0, 0, false, false, .noSite, 0⟩

def setNoSite (p : PhysPIP) : PhysPIP := { p with which := .noSite }

def setSite (p : PhysPIP) (s : Nat) : PhysPIP := { p with which := .site, getSite := s }

end PhysPIP

inductive PhysSitePIP.Which
  | isInverting
  | inverts
deriving DecidableEq, Repr

structure PhysSitePIP where
  site : Nat
  bel : Nat
  pin : Nat
  isFixed : Bool
  which : PhysSitePIP.Which
  getIsInverting : Bool
deriving DecidableEq, Repr

namespace PhysSitePIP

/-- A new site PIP. -/
def init : PhysSitePIP := ⟨0, 0, 0, false, .isInverting, false⟩

def setIsInverting (p : PhysSitePIP) (b : Bool) : PhysSitePIP :=
  { p with which := .isInverting, getIsInverting := b }

def setInverts (p : PhysSitePIP) : PhysSitePIP := { p with which := .inverts }

end PhysSitePIP

inductive RouteSegment
  | belPin (p : PhysBelPin)
  | sitePin (p : PhysSitePin)
  | pip (p : PhysPIP)
  | sitePIP (p : PhysSitePIP)
deriving DecidableEq, Repr

/-- A segment and the branches behind it. -/
abbrev RouteBranch := RoseTree RouteSegment

namespace RouteBranch

/-- An entry of a new list of branches. -/
def init : RouteBranch := .node (.belPin ⟨0, 0, 0⟩) []

/-- `initBranches(size)`. -/
def initBranches (size : Nat) : List RouteBranch := List.replicate size init

end RouteBranch

inductive NetType
  | signal
  | gnd
  | vcc
deriving DecidableEq, Repr

structure PhysNet where
  sources : List RouteBranch
  stubs : List RouteBranch
  type : NetType := .signal

/-! ## Copies -/

/-- Both members of the union of a PIP are set, one after the other. -/
def copySegment : RouteSegment → RouteSegment
  | .sitePin sp => .sitePin { site := sp.site, pin := sp.pin }
  | .belPin bp => .belPin { site := bp.site, bel := bp.bel, pin := bp.pin }
  | .pip p =>
    let tgt := { PhysPIP.init with
      tile := p.tile, wire0 := p.wire0, wire1 := p.wire1, forward := p.forward,
      isFixed := p.isFixed }
    .pip (tgt.setNoSite.setSite p.getSite)
  | .sitePIP sp =>
    let tgt := { PhysSitePIP.init with
      site := sp.site, bel := sp.bel, pin := sp.pin, isFixed := sp.isFixed }
    .sitePIP (tgt.setIsInverting sp.getIsInverting).setInverts

mutual

def copyBranch : RouteBranch → RouteBranch
  | .node s bs => .node (copySegment s) (copyBranches bs)

def copyBranches : List RouteBranch → List RouteBranch
  | [] => []
  | b :: bs => copyBranch b :: copyBranches bs

end

/-! ## What a copy keeps -/

/-- What a reader of the message sees of a segment: its kind, its fields and the active member of its
union. -/
inductive RouteSegment.Content
  | belPin (site bel pin : Nat)
  | sitePin (site pin : Nat)
  | pip (tile wire0 wire1 : Nat) (forward isFixed : Bool) (site : Option Nat)
  | sitePIP (site bel pin : Nat) (isFixed : Bool) (isInverting : Option Bool)
deriving DecidableEq, Repr

/-- No site stands for `noSite`, no flag for `inverts`. -/
def RouteSegment.content : RouteSegment → Content
  | .belPin p => .belPin p.site p.bel p.pin
  | .sitePin p => .sitePin p.site p.pin
  | .pip p =>
    .pip p.tile p.wire0 p.wire1 p.forward p.isFixed (if p.which = .site then some p.getSite else none)
  | .sitePIP p =>
    .sitePIP p.site p.bel p.pin p.isFixed
      (if p.which = .isInverting then some p.getIsInverting else none)

/-- The member of the union that `copyBranch` sets last is the active one. -/
def RouteSegment.LastMember : RouteSegment → Prop
  | .pip p => p.which = .site
  | .sitePIP p => p.which = .inverts
  | _ => True

theorem content_copySegment_iff (s : RouteSegment) :
    (copySegment s).content = s.content ↔ s.LastMember := by
  cases s with
  | belPin p => exact iff_of_true rfl trivial
  | sitePin p => exact iff_of_true rfl trivial
  | pip p =>
    obtain ⟨tile, wire0, wire1, forward, isFixed, which, site⟩ := p
    cases which <;> simp [copySegment, RouteSegment.content, RouteSegment.LastMember,
      PhysPIP.setSite, PhysPIP.setNoSite]
  | sitePIP p =>
    obtain ⟨site, bel, pin, isFixed, which, isInverting⟩ := p
    cases which <;> simp [copySegment, RouteSegment.content, RouteSegment.LastMember,
      PhysSitePIP.setInverts, PhysSitePIP.setIsInverting]

theorem copyBranch_eq_map (b : RouteBranch) : copyBranch b = b.map copySegment := by
  induction b using RoseTree.induct with
  | node s bs ih =>
    rw [copyBranch, RoseTree.map_node]
    congr 1
    induction bs with
    | nil => rfl
    | cons b bs ihs =>
      rw [copyBranches, List.map_cons, ih b List.mem_cons_self]
      rw [ihs fun c hc => ih c (List.mem_cons_of_mem b hc)]

/-- **A copy is faithful exactly if every PIP of the tree goes through a site and every site PIP
inverts**: a PIP without a site is copied with one, and a site PIP that says whether it inverts is
copied as one that does. -/
theorem copyBranch_faithful_iff (src : RouteBranch) :
    (copyBranch src).map RouteSegment.content = src.map RouteSegment.content ↔
      ∀ s ∈ src.labels, s.LastMember := by
  rw [copyBranch_eq_map, RoseTree.map_map, RoseTree.map_eq_map_iff]
  refine forall_congr' fun s => imp_congr_right fun _ => ?_
  exact content_copySegment_iff s

/-- A stub that goes through a site PIP which does not invert. -/
def sitePIPStub : RouteBranch :=
  .node (.sitePin ⟨0, 1⟩) [.node (.sitePIP ⟨0, 2, 3, false, .isInverting, false⟩) []]

/-- Its copy inverts. -/
theorem copyBranch_inverts_sitePIPStub :
    (copyBranch sitePIPStub).map RouteSegment.content ≠ sitePIPStub.map RouteSegment.content ∧
      ((copyBranch sitePIPStub).map RouteSegment.content).children =
        [.node (.sitePIP 0 2 3 false none) []] := by
  refine ⟨fun h => ?_, rfl⟩
  cases h

/-- A segment but for a union: its kind and its fields. -/
inductive RouteSegment.Fields
  | belPin (site bel pin : Nat)
  | sitePin (site pin : Nat)
  | pip (tile wire0 wire1 : Nat) (forward isFixed : Bool)
  | sitePIP (site bel pin : Nat) (isFixed : Bool)
deriving DecidableEq, Repr

def RouteSegment.fields : RouteSegment → Fields
  | .belPin p => .belPin p.site p.bel p.pin
  | .sitePin p => .sitePin p.site p.pin
  | .pip p => .pip p.tile p.wire0 p.wire1 p.forward p.isFixed
  | .sitePIP p => .sitePIP p.site p.bel p.pin p.isFixed

/-- A tree of branches in the same places, each with the fields of the original. It reads as the
original if the unions there allow it. -/
structure IsCopy (src tgt : RouteBranch) : Prop where
  fields : tgt.map RouteSegment.fields = src.map RouteSegment.fields
  content : (∀ s ∈ src.labels, s.LastMember) →
    tgt.map RouteSegment.content = src.map RouteSegment.content

theorem isCopy_copyBranch (src : RouteBranch) : IsCopy src (copyBranch src) where
  fields := by
    rw [copyBranch_eq_map, RoseTree.map_map, RoseTree.map_eq_map_iff]
    intro s _
    cases s <;> rfl
  content := by
    intro h
    rw [copyBranch_eq_map, RoseTree.map_map, RoseTree.map_eq_map_iff]
    exact fun s hs => (content_copySegment_iff s).2 (h s hs)

end Potter
