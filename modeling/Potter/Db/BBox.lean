import Mathlib.Algebra.Order.BigOperators.Group.List
import Potter.Db.Database
import Potter.Lib.Folds

/-!
# Centers and boxes

The reader of the netlist gives every net a center, the rounded-up mean of its source and its sinks,
and every connection the extent of its ends and that center (`updateNetAndConnectionBBox`). The router
grows the extents by its margins to the boxes that the searches stay in, and takes the hull of its
boxes for the extent of a net (`updateIndirectConnectionBBox`).

A coordinate below zero becomes `-1` and one above the layout becomes its upper end. So, with the ends
of the nodes in the layout and positive margins, every connection starts and ends strictly inside its
box, also at the border (`searchBox_sides`). The margins are added before the sums are cut to the layout:
they must be small enough for `int` (`MarginsFit`), as the router's own 3 and 15 are.
-/

namespace Potter

open Lib

/-- `(int)std::ceil(sum / cnt)`. The quotient of two such numbers is not rounded across an integer. -/
def ceilDiv (sum cnt : Int) : Int := -(-sum / cnt)

theorem le_ceilDiv {sum cnt low : Int} (hcnt : 0 < cnt) (h : low * cnt ≤ sum) :
    low ≤ ceilDiv sum cnt := by
  have := Int.ediv_le_of_le_mul hcnt (show -sum ≤ -low * cnt by rw [Int.neg_mul]; omega)
  unfold ceilDiv
  omega

theorem ceilDiv_le {sum cnt high : Int} (hcnt : 0 < cnt) (h : sum ≤ high * cnt) :
    ceilDiv sum cnt ≤ high := by
  have := (Int.le_ediv_iff_mul_le hcnt).2 (show -high * cnt ≤ -sum by rw [Int.neg_mul]; omega)
  unfold ceilDiv
  omega

def min3 (n1 n2 n3 : Int) : Int :=
  let min := n1
  let min := if n2 < min then n2 else min
  if n3 < min then n3 else min

def max3 (n1 n2 n3 : Int) : Int :=
  let max := n1
  let max := if n2 > max then n2 else max
  if n3 > max then n3 else max

namespace Database

variable {K : Type} (D : Database K)

/-! ## The first pass -/

def endX (r : D.NodeId) : Int := (D.routeNodes r).endTileXCoordinate

def endY (r : D.NodeId) : Int := (D.routeNodes r).endTileYCoordinate

/-- The source and the sinks of a net. -/
def netNodes (n : D.NetId) : List D.NodeId :=
  match (D.nets n).indirectConns with
  | [] => []
  | c :: conns => D.source c :: (c :: conns).map D.sink

/-- The mean coordinate of a net, zero for a net without connections. -/
def centerOf (coord : D.NodeId → Int) (n : D.NetId) : Int :=
  if (D.nets n).getConnectionSize = 0 then 0
  else ceilDiv ((D.netNodes n).map coord).sum (D.netNodes n).length

/-- The columns or rows between the nodes of a net, both ends included. -/
def spread (coord : D.NodeId → Int) (n : D.NetId) : Int :=
  ((D.netNodes n).map coord).foldl max intMin - ((D.netNodes n).map coord).foldl min intMax + 1

/-- The half perimeter around the nodes of a net, twice. -/
def pinHpwl (n : D.NetId) : Int :=
  if (D.nets n).getConnectionSize = 0 then 0
  else max 0 (2 * (|D.spread D.endY n| + |D.spread D.endX n|))

/-- The extent of a connection, with the center of its net. -/
def extent (c : D.ConnId) : BoxT :=
  let xCenter := D.centerOf D.endX (D.netOf c)
  let yCenter := D.centerOf D.endY (D.netOf c)
  let xMin := min3 xCenter (D.endX (D.source c)) (D.endX (D.sink c))
  let xMin := if xMin < 0 then -1 else xMin
  let xMax := max3 xCenter (D.endX (D.source c)) (D.endX (D.sink c))
  let xMax := if xMax > D.layout.hx then D.layout.hx else xMax
  let yMin := min3 yCenter (D.endY (D.source c)) (D.endY (D.sink c))
  let yMin := if yMin < 0 then -1 else yMin
  let yMax := max3 yCenter (D.endY (D.source c)) (D.endY (D.sink c))
  let yMax := if yMax > D.layout.hy then D.layout.hy else yMax
  BoxT.set xMin yMin xMax yMax

/-- Give a net its center. The extents of the connections were added to its own before. -/
def centeredNet (n : D.NetId) : Net D.ConnId :=
  let conns := (List.finRange D.numConns).filter fun c => D.netOf c = n
  let net := (conns.map D.extent).foldl Net.updateBB (D.nets n)
  { net with
    xCenter := D.centerOf D.endX n
    yCenter := D.centerOf D.endY n
    doubleHpwl := toInt16 (D.pinHpwl n) }

theorem centeredNet_indirectConns (n : D.NetId) :
    (D.centeredNet n).indirectConns = (D.nets n).indirectConns :=
  Net.foldl_updateBB_indirectConns _ _

/-- The connections get their extents, the nets their centers. -/
def updateNetAndConnectionBBox : Database K :=
  { D with
    indirectConnections := fun c =>
      { (D.indirectConnections c).updateBBox (D.extent c) with
        xmin := (D.extent c).lx
        xmax := (D.extent c).hx
        ymin := (D.extent c).ly
        ymax := (D.extent c).hy }
    nets := D.centeredNet
    mem_indirectConns := by
      intro n c
      rw [centeredNet_indirectConns]
      exact D.mem_indirectConns
    nodup_indirectConns := by
      intro n
      rw [centeredNet_indirectConns]
      exact D.nodup_indirectConns n
    source_eq := fun h => D.source_eq h }

/-! ## The center of a net -/

section Center

variable {D} {n : D.NetId}

theorem centerOf_mem {coord : D.NodeId → Int} {low high : Int} (hlow : ∀ r, low ≤ coord r)
    (hhigh : ∀ r, coord r ≤ high) (hconns : (D.nets n).indirectConns ≠ []) :
    low ≤ D.centerOf coord n ∧ D.centerOf coord n ≤ high := by
  obtain ⟨c, conns, hcons⟩ := List.exists_cons_of_ne_nil hconns
  have hsize : ¬(D.nets n).getConnectionSize = 0 := by
    rw [Net.getConnectionSize, hcons, List.length_cons]
    omega
  have hpos : (0 : Int) < (D.netNodes n).length := by
    rw [netNodes, hcons]
    exact Int.natCast_pos.2 (Nat.succ_pos _)
  have hmin := List.card_nsmul_le_sum ((D.netNodes n).map coord) low fun x hx => by
    obtain ⟨r, -, rfl⟩ := List.mem_map.1 hx
    exact hlow r
  have hmax := List.sum_le_card_nsmul ((D.netNodes n).map coord) high fun x hx => by
    obtain ⟨r, -, rfl⟩ := List.mem_map.1 hx
    exact hhigh r
  rw [List.length_map, nsmul_eq_mul, mul_comm] at hmin hmax
  rw [centerOf, if_neg hsize]
  exact ⟨le_ceilDiv hpos hmin, ceilDiv_le hpos hmax⟩

end Center

/-! ## The boxes of the connections -/

section Boxes

/-- Both passes, one after the other. -/
def boxed (xMargin yMargin : Int) : Database K :=
  D.updateNetAndConnectionBBox.updateIndirectConnectionBBox xMargin yMargin

/-- The box that a connection has after both passes. -/
def searchBox (xMargin yMargin : Int) (c : D.ConnId) : BoxT :=
  (D.updateNetAndConnectionBBox.indirectConnections c).grownBBox D.layout xMargin yMargin

/-- A net after both passes. -/
def boxedNet (xMargin yMargin : Int) (n : D.NetId) : Net D.ConnId :=
  (D.centeredNet n).updateExtent (D.searchBox xMargin yMargin)

theorem boxedNet_indirectConns (xMargin yMargin : Int) (n : D.NetId) :
    (D.boxedNet xMargin yMargin n).indirectConns = (D.nets n).indirectConns :=
  (Net.updateExtent_indirectConns _ _).trans (D.centeredNet_indirectConns n)

/-- The end tiles of the nodes lie in the layout. -/
def FitsLayout : Prop :=
  ∀ r, (0 ≤ D.endX r ∧ D.endX r < D.layout.hx) ∧ 0 ≤ D.endY r ∧ D.endY r < D.layout.hy

instance : Decidable D.FitsLayout :=
  inferInstanceAs (Decidable (∀ _ : Fin D.numNodes, (_ ∧ _) ∧ _ ∧ _))

/-- The margins can be added to the extents without overflow. -/
def MarginsFit (xMargin yMargin : Int) : Prop :=
  ∀ c, (D.extent c).hx + xMargin ≤ intMax ∧ (D.extent c).hy + yMargin ≤ intMax

instance (xMargin yMargin : Int) : Decidable (D.MarginsFit xMargin yMargin) :=
  inferInstanceAs (Decidable (∀ _ : Fin D.numConns, _ ∧ _))

/-- The lower side of a box, cut to the layout after each pass. -/
theorem lower_side {a b c margin : Int} (ha : 0 ≤ a) (hb : 0 ≤ b) (hc : 0 ≤ c) (hmargin : 0 < margin)
    (hfit : a + margin ≤ intMax) :
    let low := toInt32 ((if min3 a b c < 0 then -1 else min3 a b c) - margin)
    let low := if low < 0 then -1 else low
    low < a ∧ low < b ∧ low < c ∧ -1 ≤ low := by
  have hmin : 0 ≤ min3 a b c ∧ min3 a b c ≤ a ∧ min3 a b c ≤ b ∧ min3 a b c ≤ c := by
    unfold min3
    dsimp only
    split_ifs <;> omega
  have hrange : toInt32 (min3 a b c - margin) = min3 a b c - margin := by
    refine toInt32_of_range ?_ ?_
    · unfold intMin intMax at *
      omega
    · omega
  dsimp only
  rw [if_neg (not_lt.2 hmin.1), hrange]
  split_ifs <;> omega

/-- The upper side. -/
theorem upper_side {a b c h margin : Int} (ha : 0 ≤ a) (ha' : a < h) (hb : b < h) (hc : c < h)
    (hmargin : 0 < margin)
    (hfit : (if max3 a b c > h then h else max3 a b c) + margin ≤ intMax) :
    let high := toInt32 ((if max3 a b c > h then h else max3 a b c) + margin)
    let high := if high > h then h else high
    (a < high ∧ b < high ∧ c < high ∧ high ≤ h) ∧ a + margin ≤ intMax := by
  have hmax : a ≤ max3 a b c ∧ b ≤ max3 a b c ∧ c ≤ max3 a b c ∧ max3 a b c < h := by
    unfold max3
    dsimp only
    split_ifs <;> omega
  have hcut : (if max3 a b c > h then h else max3 a b c) = max3 a b c := if_neg (by omega)
  rw [hcut] at hfit ⊢
  have hrange : toInt32 (max3 a b c + margin) = max3 a b c + margin := by
    refine toInt32_of_range ?_ hfit
    unfold intMin
    omega
  dsimp only
  rw [hrange]
  split_ifs <;> omega

variable {D} {xMargin yMargin : Int} (hfits : D.FitsLayout) (hx : 0 < xMargin) (hy : 0 < yMargin)
  (hmargins : D.MarginsFit xMargin yMargin)

include hfits

theorem centerOf_endX_mem {n : D.NetId} (hconns : (D.nets n).indirectConns ≠ []) :
    0 ≤ D.centerOf D.endX n ∧ D.centerOf D.endX n < D.layout.hx := by
  have h := centerOf_mem (fun r => (hfits r).1.1) (fun r => Int.le_sub_one_of_lt (hfits r).1.2) hconns
  omega

theorem centerOf_endY_mem {n : D.NetId} (hconns : (D.nets n).indirectConns ≠ []) :
    0 ≤ D.centerOf D.endY n ∧ D.centerOf D.endY n < D.layout.hy := by
  have h := centerOf_mem (fun r => (hfits r).2.1) (fun r => Int.le_sub_one_of_lt (hfits r).2.2) hconns
  omega

include hx hy hmargins

/-- **The ends of a connection and the center of its net lie strictly inside its box**, and the box
lies in the layout, with the columns and rows `-1`. -/
theorem searchBox_sides (c : D.ConnId) :
    let b := D.searchBox xMargin yMargin c
    b.Inside (D.endX (D.source c)) (D.endY (D.source c)) ∧
      b.Inside (D.endX (D.sink c)) (D.endY (D.sink c)) ∧
      b.Inside (D.centerOf D.endX (D.netOf c)) (D.centerOf D.endY (D.netOf c)) ∧
      (-1 ≤ b.lx ∧ b.hx ≤ D.layout.hx) ∧ -1 ≤ b.ly ∧ b.hy ≤ D.layout.hy := by
  have hconns : (D.nets (D.netOf c)).indirectConns ≠ [] :=
    List.ne_nil_of_mem (D.mem_conns_netOf c)
  obtain ⟨hcx, hcx'⟩ := centerOf_endX_mem hfits hconns
  obtain ⟨hcy, hcy'⟩ := centerOf_endY_mem hfits hconns
  obtain ⟨⟨hsx, hsx'⟩, hsy, hsy'⟩ := hfits (D.source c)
  obtain ⟨⟨htx, htx'⟩, hty, hty'⟩ := hfits (D.sink c)
  obtain ⟨hux, hfitx⟩ := upper_side hcx hcx' hsx' htx' hx (hmargins c).1
  obtain ⟨huy, hfity⟩ := upper_side hcy hcy' hsy' hty' hy (hmargins c).2
  have hlx := lower_side hcx hsx htx hx hfitx
  have hly := lower_side hcy hsy hty hy hfity
  exact ⟨⟨⟨hlx.2.1, hux.2.1⟩, hly.2.1, huy.2.1⟩,
    ⟨⟨hlx.2.2.1, hux.2.2.1⟩, hly.2.2.1, huy.2.2.1⟩,
    ⟨⟨hlx.1, hux.1⟩, hly.1, huy.1⟩,
    ⟨hlx.2.2.2, hux.2.2.2⟩, hly.2.2.2, huy.2.2.2⟩

end Boxes

end Database

/-! ## The extent of a net -/

namespace Net

variable {C : Type} (net : Net C)

/-- The extent of the net is the hull of the boxes. -/
structure IsHull (boxes : List BoxT) : Prop where
  xmin : IsLeast {x | ∃ b ∈ boxes, b.lx = x} net.xmin
  xmax : IsGreatest {x | ∃ b ∈ boxes, b.hx = x} net.xmax
  ymin : IsLeast {y | ∃ b ∈ boxes, b.ly = y} net.ymin
  ymax : IsGreatest {y | ∃ b ∈ boxes, b.hy = y} net.ymax

theorem foldl_updateBB (boxes : List BoxT) :
    (boxes.foldl updateBB net).xmin =
        boxes.foldl (fun m b => if b.lx < m then b.lx else m) net.xmin ∧
      (boxes.foldl updateBB net).xmax =
        boxes.foldl (fun m b => if b.hx > m then b.hx else m) net.xmax ∧
      (boxes.foldl updateBB net).ymin =
        boxes.foldl (fun m b => if b.ly < m then b.ly else m) net.ymin ∧
      (boxes.foldl updateBB net).ymax =
        boxes.foldl (fun m b => if b.hy > m then b.hy else m) net.ymax := by
  induction boxes generalizing net with
  | nil => exact ⟨rfl, rfl, rfl, rfl⟩
  | cons b boxes ih => exact ih (net.updateBB b)

/-- **The extent of a net is the hull of its boxes**, if its center lies in one of them. -/
theorem isHull_coverBBoxes {boxes : List BoxT}
    (hcenter : ∃ b ∈ boxes, b.Inside net.xCenter net.yCenter) : (net.coverBBoxes boxes).IsHull boxes := by
  obtain ⟨b, hb, hx, hy⟩ := hcenter
  obtain ⟨hxmin, hxmax, hymin, hymax⟩ := foldl_updateBB { net with
    xmin := net.xCenter, xmax := net.xCenter, ymin := net.yCenter, ymax := net.yCenter } boxes
  refine ⟨?_, ?_, ?_, ?_⟩
  · rw [coverBBoxes, hxmin]
    exact isLeast_foldl BoxT.lx ⟨b, hb, le_of_lt hx.1⟩
  · rw [coverBBoxes, hxmax]
    exact isLeast_foldl (α := Intᵒᵈ) BoxT.hx ⟨b, hb, le_of_lt hx.2⟩
  · rw [coverBBoxes, hymin]
    exact isLeast_foldl BoxT.ly ⟨b, hb, le_of_lt hy.1⟩
  · rw [coverBBoxes, hymax]
    exact isLeast_foldl (α := Intᵒᵈ) BoxT.hy ⟨b, hb, le_of_lt hy.2⟩

/-- The hull of boxes that are not flat and lie within some bounds. -/
theorem IsHull.sides {net : Net C} {boxes : List BoxT} (h : net.IsHull boxes) (hne : boxes ≠ [])
    {lx hx ly hy : Int} (hboxes : ∀ b ∈ boxes, (lx ≤ b.lx ∧ b.lx < b.hx ∧ b.hx ≤ hx) ∧
      ly ≤ b.ly ∧ b.ly < b.hy ∧ b.hy ≤ hy) :
    (lx ≤ net.xmin ∧ net.xmin < net.xmax ∧ net.xmax ≤ hx) ∧
      ly ≤ net.ymin ∧ net.ymin < net.ymax ∧ net.ymax ≤ hy := by
  obtain ⟨b, hb⟩ := List.exists_mem_of_ne_nil _ hne
  obtain ⟨⟨-, hwide, -⟩, -, hhigh, -⟩ := hboxes b hb
  -- Every side of the hull is a side of one of the boxes.
  obtain ⟨b₁, hb₁, hxmin⟩ := h.xmin.1
  obtain ⟨b₂, hb₂, hxmax⟩ := h.xmax.1
  obtain ⟨b₃, hb₃, hymin⟩ := h.ymin.1
  obtain ⟨b₄, hb₄, hymax⟩ := h.ymax.1
  have hleft := h.xmin.2 ⟨b, hb, rfl⟩
  have hright := h.xmax.2 ⟨b, hb, rfl⟩
  have hlower := h.ymin.2 ⟨b, hb, rfl⟩
  have hupper := h.ymax.2 ⟨b, hb, rfl⟩
  have hlx := (hboxes b₁ hb₁).1.1
  have hhx := (hboxes b₂ hb₂).1.2.2
  have hly := (hboxes b₃ hb₃).2.1
  have hhy := (hboxes b₄ hb₄).2.2.2
  exact ⟨⟨hxmin ▸ hlx, hleft.trans_lt (hwide.trans_le hright), hxmax ▸ hhx⟩,
    hymin ▸ hly, hlower.trans_lt (hhigh.trans_le hupper), hymax ▸ hhy⟩

/-- The value that `setDoubleHpwl` gets. -/
def hpwlOfExtent : Int := max 0 (2 * (|net.ymax - net.ymin + 1| + |net.xmax - net.xmin + 1|))

/-- The half perimeter of an extent in the layout fits a `short`. -/
theorem IsHull.hpwl_range {net : Net C} {boxes : List BoxT} (h : net.IsHull boxes)
    (hboxes : ∀ b ∈ boxes, (-1 ≤ b.lx ∧ b.hx ≤ 108) ∧ (-1 ≤ b.ly ∧ b.hy ≤ 300) ∧ b.IsValid) :
    0 < net.hpwlOfExtent ∧ net.hpwlOfExtent ≤ 32767 := by
  obtain ⟨b, hb, hxmin⟩ := h.xmin.1
  obtain ⟨b', hb', hxmax⟩ := h.xmax.1
  obtain ⟨d, hd, hymin⟩ := h.ymin.1
  obtain ⟨d', hd', hymax⟩ := h.ymax.1
  have hx := h.xmin.2 ⟨b', hb', rfl⟩
  have hy := h.ymin.2 ⟨d', hd', rfl⟩
  have hvx : b'.lx ≤ b'.hx := (hboxes b' hb').2.2.1
  have hvy : d'.ly ≤ d'.hy := (hboxes d' hd').2.2.2
  have hlow := (hboxes b hb).1.1
  have hhigh := (hboxes b' hb').1.2
  have hlow' := (hboxes d hd).2.1.1
  have hhigh' := (hboxes d' hd').2.1.2
  unfold hpwlOfExtent
  rw [abs_of_pos (by omega), abs_of_pos (by omega)]
  omega

end Net

namespace Database

variable {K : Type} {D : Database K} {xMargin yMargin : Int}

section Hulls

variable (hlayout : D.layout = .set 0 0 108 300) (hfits : D.FitsLayout) (hx : 0 < xMargin)
  (hy : 0 < yMargin) (hmargins : D.MarginsFit xMargin yMargin) {n : D.NetId}
  (hconns : (D.nets n).indirectConns ≠ [])

include hconns

theorem boxedNet_eq : D.boxedNet xMargin yMargin n = (D.centeredNet n).coverBBoxes
    ((D.nets n).indirectConns.map (D.searchBox xMargin yMargin)) := by
  have hsize : ¬(D.centeredNet n).getConnectionSize = 0 := by
    rw [Net.getConnectionSize, centeredNet_indirectConns, Int.natCast_eq_zero]
    exact fun h => hconns (List.eq_nil_of_length_eq_zero h)
  rw [← D.centeredNet_indirectConns n]
  exact if_neg hsize

include hfits hx hy hmargins

/-- The center of a net lies in its boxes, so it does not widen the hull. -/
theorem isHull_boxedNet : (D.boxedNet xMargin yMargin n).IsHull
    ((D.nets n).indirectConns.map (D.searchBox xMargin yMargin)) := by
  obtain ⟨c, hc⟩ := List.exists_mem_of_ne_nil _ hconns
  have hcenter := (searchBox_sides hfits hx hy hmargins c).2.2.1
  rw [D.netOf_eq hc] at hcenter
  rw [boxedNet_eq hconns]
  exact Net.isHull_coverBBoxes _ ⟨_, List.mem_map_of_mem hc, hcenter⟩

include hlayout

/-- The half perimeter of a net is stored as it was computed. -/
theorem doubleHpwl_boxedNet :
    (D.boxedNet xMargin yMargin n).doubleHpwl = (D.boxedNet xMargin yMargin n).hpwlOfExtent ∧
      0 < (D.boxedNet xMargin yMargin n).doubleHpwl := by
  obtain ⟨hpos, hle⟩ := (isHull_boxedNet hfits hx hy hmargins hconns).hpwl_range fun b hb => by
    obtain ⟨c, -, rfl⟩ := List.mem_map.1 hb
    obtain ⟨hsource, -, -, hxs, hys⟩ := searchBox_sides hfits hx hy hmargins c
    rw [hlayout] at hxs hys
    exact ⟨hxs, hys, BoxT.isValid_of_inside hsource⟩
  have hstored : (D.boxedNet xMargin yMargin n).doubleHpwl =
      (D.boxedNet xMargin yMargin n).hpwlOfExtent := by
    rw [boxedNet_eq hconns] at hpos hle ⊢
    exact toInt16_of_range (by omega) hle
  refine ⟨hstored, ?_⟩
  rw [hstored]
  exact hpos

end Hulls

section Spec

variable (hlayout : D.layout = .set 0 0 108 300) (hfits : D.FitsLayout) (hx : 0 < xMargin)
  (hy : 0 < yMargin) (hmargins : D.MarginsFit xMargin yMargin)

include hfits hx hy hmargins

theorem boxed_ends :
    let B := D.boxed xMargin yMargin
    ∀ c, B.InBox c (B.source c) ∧ B.InBox c (B.sink c) := by
  intro B c
  obtain ⟨hsource, hsink, -⟩ := searchBox_sides hfits hx hy hmargins c
  exact ⟨hsource, hsink⟩

include hlayout

theorem boxed_nets :
    let B := D.boxed xMargin yMargin
    ∀ n, (B.nets n).indirectConns ≠ [] →
      (B.nets n).IsHull ((B.nets n).indirectConns.map B.bbox) ∧
      (B.nets n).doubleHpwl = (B.nets n).hpwlOfExtent ∧ 0 < (B.nets n).doubleHpwl := by
  have hnets : ∀ n, (D.boxedNet xMargin yMargin n).indirectConns ≠ [] →
      (D.boxedNet xMargin yMargin n).IsHull
        ((D.boxedNet xMargin yMargin n).indirectConns.map (D.searchBox xMargin yMargin)) ∧
      (D.boxedNet xMargin yMargin n).doubleHpwl = (D.boxedNet xMargin yMargin n).hpwlOfExtent ∧
      0 < (D.boxedNet xMargin yMargin n).doubleHpwl := by
    intro n hconns
    rw [boxedNet_indirectConns] at hconns ⊢
    exact ⟨isHull_boxedNet hfits hx hy hmargins hconns,
      doubleHpwl_boxedNet hlayout hfits hx hy hmargins hconns⟩
  exact hnets

end Spec

/-- **The boxes of the router.** The ends of a connection lie strictly inside its box, the extent of
a net is the hull of its boxes, and its half perimeter is stored as it was computed, a positive
number. -/
theorem boxed_spec (hlayout : D.layout = .set 0 0 108 300) (hfits : D.FitsLayout)
    (hx : 0 < xMargin) (hy : 0 < yMargin) (hmargins : D.MarginsFit xMargin yMargin) :
    let B := D.boxed xMargin yMargin
    (∀ c, B.InBox c (B.source c) ∧ B.InBox c (B.sink c)) ∧
      ∀ n, (B.nets n).indirectConns ≠ [] →
        (B.nets n).IsHull ((B.nets n).indirectConns.map B.bbox) ∧
        (B.nets n).doubleHpwl = (B.nets n).hpwlOfExtent ∧ 0 < (B.nets n).doubleHpwl :=
  ⟨boxed_ends hfits hx hy hmargins, boxed_nets hlayout hfits hx hy hmargins⟩

/-! A connection from one corner of the layout to the other. -/

def corners : Database Unit where
  numNodes := 2
  numNets := 1
  numConns := 1
  routeNodes r :=
    { beginTileXCoordinate := if r = 0 then 0 else 107
      beginTileYCoordinate := if r = 0 then 0 else 299
      endTileXCoordinate := if r = 0 then 0 else 107
      endTileYCoordinate := if r = 0 then 0 else 299
      baseCost := ()
      length := 0
      type := if r = 0 then .pinfeedO else .pinfeedI
      isAccessibleWire := false
      isNodePinBounce := false
      children := .setChildren [] }
  indirectConnections _ :=
    { netId := 0, source := 0, sink := 1, xmin := 0, xmax := 0, ymin := 0, ymax := 0, bbox := .empty,
      hpwl := 0 }
  nets _ :=
    { indirectConns := [0], xCenter := 0, yCenter := 0, doubleHpwl := 0, xmin := intMax,
      xmax := intMin, ymin := intMax, ymax := intMin }
  layout := .set 0 0 108 300
  deviceXMax := 107
  deviceYMax := 299
  mem_indirectConns := by decide
  nodup_indirectConns := by decide
  source_eq := by decide

/-- The box is cut on all four sides and still holds both corners. -/
theorem boxed_spec_corners :
    (corners.boxed 3 15).bbox (0 : Fin 1) = .set (-1) (-1) 108 300 ∧
    (corners.boxed 3 15).InBox (0 : Fin 1) (0 : Fin 2) ∧
    (corners.boxed 3 15).InBox (0 : Fin 1) (1 : Fin 2) ∧
    ((corners.boxed 3 15).nets (0 : Fin 1)).doubleHpwl = 824 := by
  have hx : (0 : Int) < 3 := by decide
  have hy : (0 : Int) < 15 := by decide
  have h := boxed_spec (D := corners) rfl (by decide) hx hy (by decide)
  have hends := h.1 (0 : Fin 1)
  refine ⟨by decide, hends.1, hends.2, ?_⟩
  have hstored := (h.2 (0 : Fin 1) (by decide)).2.1
  rw [hstored]
  decide

/-- **A margin that does not fit.** The right side of the box comes out negative, and the box holds
neither corner. -/
theorem boxed_overflow_corners :
    corners.layout = .set 0 0 108 300 ∧ corners.FitsLayout ∧ 0 < intMax ∧
      ((corners.boxed intMax 15).bbox (0 : Fin 1)).hx = -2147483542 ∧
      ¬(corners.boxed intMax 15).InBox (0 : Fin 1) (0 : Fin 2) ∧
      ¬(corners.boxed intMax 15).InBox (0 : Fin 1) (1 : Fin 2) := by
  have hhx : ((corners.boxed intMax 15).bbox (0 : Fin 1)).hx = -2147483542 := by decide
  refine ⟨rfl, by decide, by decide, hhx, fun h => ?_, fun h => ?_⟩
  · have hright : (0 : Int) < ((corners.boxed intMax 15).bbox (0 : Fin 1)).hx := h.1.2
    rw [hhx] at hright
    exact absurd hright (by decide)
  · have hright : (107 : Int) < ((corners.boxed intMax 15).bbox (0 : Fin 1)).hx := h.1.2
    rw [hhx] at hright
    exact absurd hright (by decide)

/-- The boxes were computed from the tiles of the nodes. -/
def Boxed (B : Database K) : Prop :=
  ∃ (D : Database K) (xMargin yMargin : Int), B = D.boxed xMargin yMargin ∧ D.FitsLayout ∧
    (0 < xMargin ∧ 0 < yMargin) ∧ D.MarginsFit xMargin yMargin

theorem Boxed.ends {B : Database K} (h : B.Boxed) (c : B.ConnId) :
    B.InBox c (B.source c) ∧ B.InBox c (B.sink c) := by
  obtain ⟨D, xMargin, yMargin, rfl, hfits, ⟨hx, hy⟩, hmargins⟩ := h
  exact boxed_ends hfits hx hy hmargins c

theorem Boxed.isHull {B : Database K} (h : B.Boxed) (hlayout : B.layout = .set 0 0 108 300)
    {n : B.NetId} (hconns : (B.nets n).indirectConns ≠ []) :
    (B.nets n).IsHull ((B.nets n).indirectConns.map B.bbox) ∧
      ∀ c, (-1 ≤ (B.bbox c).lx ∧ (B.bbox c).lx < (B.bbox c).hx ∧ (B.bbox c).hx ≤ B.layout.hx) ∧
        -1 ≤ (B.bbox c).ly ∧ (B.bbox c).ly < (B.bbox c).hy ∧ (B.bbox c).hy ≤ B.layout.hy := by
  obtain ⟨D, xMargin, yMargin, rfl, hfits, ⟨hx, hy⟩, hmargins⟩ := h
  have hnets := boxed_nets (D := D) hlayout hfits hx hy hmargins
  refine ⟨(hnets n hconns).1, fun c => ?_⟩
  obtain ⟨hsource, -, -, hxs, hys⟩ := searchBox_sides hfits hx hy hmargins c
  exact ⟨⟨hxs.1, hsource.1.1.trans hsource.1.2, hxs.2⟩, hys.1, hsource.2.1.trans hsource.2.2, hys.2⟩

theorem Boxed.doubleHpwl_pos {B : Database K} (h : B.Boxed) (hlayout : B.layout = .set 0 0 108 300)
    {n : B.NetId} (hconns : (B.nets n).indirectConns ≠ []) : 0 < (B.nets n).doubleHpwl := by
  obtain ⟨D, xMargin, yMargin, rfl, hfits, ⟨hx, hy⟩, hmargins⟩ := h
  exact (boxed_nets (D := D) hlayout hfits hx hy hmargins n hconns).2.2

/-- The extent of a net has columns and rows inside, and lies in the layout with the columns and rows
`-1`. -/
theorem Boxed.extent {B : Database K} (h : B.Boxed) (hlayout : B.layout = .set 0 0 108 300)
    {n : B.NetId} (hconns : (B.nets n).indirectConns ≠ []) :
    (-1 ≤ (B.nets n).xmin ∧ (B.nets n).xmin < (B.nets n).xmax ∧ (B.nets n).xmax ≤ B.layout.hx) ∧
      -1 ≤ (B.nets n).ymin ∧ (B.nets n).ymin < (B.nets n).ymax ∧ (B.nets n).ymax ≤ B.layout.hy := by
  obtain ⟨hhull, hsides⟩ := h.isHull hlayout hconns
  refine hhull.sides (fun h => hconns (List.map_eq_nil_iff.1 h)) ?_
  intro b hb
  obtain ⟨c, -, rfl⟩ := List.mem_map.1 hb
  exact hsides c

end Database

end Potter
