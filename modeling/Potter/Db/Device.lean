import Mathlib.Algebra.BigOperators.Group.List.Basic
import Mathlib.Algebra.GroupWithZero.Nat
import Mathlib.Data.List.Induction
import Mathlib.Logic.Function.Basic
import Potter.Lib.Counting
import Potter.Utils.Arith

/-!
# The device

The tables of `db/device.h`. A tile type has wires and programmable interconnect points (PIPs), which
join two of its wires; `add_tile_type_pip` enters the PIPs into the tables of the tile type. A node
of the device consists of wires of tiles, and its edges are the PIPs of those tiles
(`mem_getOutgoingNodes_iff`).

`getTileTypePIP` looks for a PIP between two nodes, in all tiles they share. The netlist is written as
if it were always found in the tile where the second node begins. The PIP that is written leads
between the two nodes exactly if the PIP that is met last is there, too.
-/

namespace Potter

open Lib

structure Wire where
  tileIdx : Nat
  tileTypeIdx : Nat
  wireInTileIdx : Nat
deriving DecidableEq, Repr

structure TileTypePIP where
  wire0ItIdx : Nat
  wire1ItIdx : Nat
  forward : Bool
deriving DecidableEq, Repr

structure Site where
  tileIdx : Nat
  tileTypeIdx : Nat
  inTileSiteIdx : Nat
  siteTypeIdx : Nat
deriving DecidableEq, Repr

/-- `NULL_TILE`, a tile type whose PIPs are not read. -/
def nullTile : Nat := 35

/-- Two wire indices as one key. -/
def ints2long (a b : Nat) : Nat := (a * 2 ^ 32 + b) % 2 ^ 64

theorem ints2long_inj {a b c d : Nat} (ha : a < 2 ^ 32) (hb : b < 2 ^ 32) (hc : c < 2 ^ 32)
    (hd : d < 2 ^ 32) : ints2long a b = ints2long c d ↔ a = c ∧ b = d := by
  unfold ints2long
  omega

/-! ## The PIPs of a tile type -/

namespace TileTypePIP

/-- The wire a PIP is driven from. -/
def driver (p : TileTypePIP) : Nat := if p.forward then p.wire0ItIdx else p.wire1ItIdx

/-- The wire a PIP drives. -/
def driven (p : TileTypePIP) : Nat := if p.forward then p.wire1ItIdx else p.wire0ItIdx

end TileTypePIP

/-- A PIP of the device file. -/
structure RawPIP where
  wire0 : Nat
  wire1 : Nat
  directional : Bool
deriving DecidableEq, Repr

/-- The ways a PIP leads: back, too, unless it is directional. -/
def RawPIP.ways (p : RawPIP) : List TileTypePIP :=
  ⟨p.wire0, p.wire1, true⟩ :: if p.directional then [] else [⟨p.wire0, p.wire1, false⟩]

/-- The tables of one tile type. -/
structure TilePIPs where
  outgoingWires : Nat → List Nat
  incomingWires : Nat → List Nat
  pipList : List TileTypePIP
  nodePairToPipIdx : Nat → Option Nat

namespace TilePIPs

def empty : TilePIPs := ⟨fun _ => [], fun _ => [], [], fun _ => none⟩

/-- Enter a PIP that leads from wire `a` to wire `b`. The program stops when there is one already. -/
def addEdge (t : TilePIPs) (a b : Nat) (pip : TileTypePIP) : Option TilePIPs :=
  let uid := ints2long a b
  if (t.nodePairToPipIdx uid).isNone then
    some {
      outgoingWires := Function.update t.outgoingWires a (t.outgoingWires a ++ [b])
      incomingWires := Function.update t.incomingWires b (t.incomingWires b ++ [a])
      pipList := t.pipList ++ [pip]
      nodePairToPipIdx := Function.update t.nodePairToPipIdx uid (some t.pipList.length) }
  else none

/-- A PIP that is not directional is entered both ways, with its wires in the same order. -/
def addTileTypePip (t : TilePIPs) (wire0 wire1 : Nat) (directional : Bool) : Option TilePIPs := do
  let t ← t.addEdge wire0 wire1 ⟨wire0, wire1, true⟩
  if directional then some t else t.addEdge wire1 wire0 ⟨wire0, wire1, false⟩

def read (pips : List RawPIP) : Option TilePIPs :=
  pips.foldlM (fun t p => t.addTileTypePip p.wire0 p.wire1 p.directional) empty

/-- The tables agree: the key of a PIP leads to it, the wires behind a wire are those its PIPs drive,
and the wires before a wire are those its PIPs are driven from, as often. -/
structure Sound (t : TilePIPs) : Prop where
  get : ∀ {k i}, t.nodePairToPipIdx k = some i →
    ∃ p, t.pipList[i]? = some p ∧ k = ints2long p.driver p.driven
  find : ∀ {p}, p ∈ t.pipList → (t.nodePairToPipIdx (ints2long p.driver p.driven)).isSome
  outgoing : ∀ {a b}, b ∈ t.outgoingWires a ↔ ∃ p ∈ t.pipList, p.driver = a ∧ p.driven = b
  count_eq : ∀ a b, (t.outgoingWires a).count b = (t.incomingWires b).count a
  unique : ∀ {p q}, p ∈ t.pipList → q ∈ t.pipList → p.driver = q.driver → p.driven = q.driven → p = q
  lt : ∀ {p}, p ∈ t.pipList → p.driver < 2 ^ 32 ∧ p.driven < 2 ^ 32

theorem sound_empty : empty.Sound where
  get := by
    intro k i h
    cases h
  find := by
    intro p h
    cases h
  outgoing := by
    intro a b
    constructor
    · intro h
      cases h
    · rintro ⟨p, h, -⟩
      cases h
  count_eq := fun _ _ => rfl
  unique := by
    intro p q h
    cases h
  lt := by
    intro p h
    cases h

/-- The key was free, and every table has an entry more. -/
theorem addEdge_eq {t t' : TilePIPs} {a b : Nat} {pip : TileTypePIP}
    (hadd : t.addEdge a b pip = some t') :
    t.nodePairToPipIdx (ints2long a b) = none ∧
      t' = { outgoingWires := Function.update t.outgoingWires a (t.outgoingWires a ++ [b])
             incomingWires := Function.update t.incomingWires b (t.incomingWires b ++ [a])
             pipList := t.pipList ++ [pip]
             nodePairToPipIdx := Function.update t.nodePairToPipIdx (ints2long a b)
               (some t.pipList.length) } := by
  unfold addEdge at hadd
  dsimp only at hadd
  split at hadd
  · next hnone =>
    cases hadd
    exact ⟨Option.isNone_iff_eq_none.1 hnone, rfl⟩
  · cases hadd

/-- How often a wire is listed after one more was appended. -/
theorem count_append (wires : Nat → List Nat) (a b a' b' : Nat) :
    (Function.update wires a (wires a ++ [b]) a').count b' =
      (wires a').count b' + if a = a' ∧ b = b' then 1 else 0 := by
  by_cases ha : a = a'
  · subst ha
    rw [Function.update_self, List.count_append, List.count_singleton]
    simp only [true_and, beq_iff_eq]
  · rw [Function.update_of_ne (Ne.symm ha), if_neg fun h => ha h.1, Nat.add_zero]

theorem mem_append (wires : Nat → List Nat) (a b a' b' : Nat) :
    b' ∈ Function.update wires a (wires a ++ [b]) a' ↔ b' ∈ wires a' ∨ a = a' ∧ b = b' := by
  rw [← List.count_pos_iff, count_append, ← List.count_pos_iff]
  split_ifs with hnew
  · exact iff_of_true (Nat.succ_pos _) (.inr hnew)
  · rw [Nat.add_zero, or_iff_left hnew]

theorem Sound.addEdge {t t' : TilePIPs} (h : t.Sound) {pip : TileTypePIP}
    (hdriver : pip.driver < 2 ^ 32) (hdriven : pip.driven < 2 ^ 32)
    (hadd : t.addEdge pip.driver pip.driven pip = some t') : t'.Sound := by
  obtain ⟨hnone, rfl⟩ := addEdge_eq hadd
  refine ⟨?get, ?find, ?outgoing, ?count, ?unique, ?lt⟩
  case get =>
    intro k i hk
    dsimp only at hk ⊢
    by_cases hkey : k = ints2long pip.driver pip.driven
    · subst hkey
      rw [Function.update_self, Option.some_inj] at hk
      subst hk
      exact ⟨pip, List.getElem?_concat_length, rfl⟩
    · rw [Function.update_of_ne hkey] at hk
      obtain ⟨p, hp, hkp⟩ := h.get hk
      refine ⟨p, ?_, hkp⟩
      rw [List.getElem?_append_left (List.getElem?_eq_some_iff.1 hp).1, hp]
  case find =>
    intro p hp
    dsimp only at hp ⊢
    by_cases hkey : ints2long p.driver p.driven = ints2long pip.driver pip.driven
    · rw [hkey, Function.update_self]
      rfl
    · rw [Function.update_of_ne hkey]
      rcases List.mem_append.1 hp with hp | hp
      · exact h.find hp
      · rw [List.mem_singleton.1 hp] at hkey
        exact absurd rfl hkey
  case outgoing =>
    intro a b
    dsimp only
    rw [mem_append, h.outgoing]
    simp only [List.mem_append, List.mem_singleton, or_and_right, exists_or, exists_eq_left]
  case count =>
    intro a b
    dsimp only
    rw [count_append, count_append, h.count_eq]
    simp only [and_comm]
  case unique =>
    -- the new PIP differs from the old ones, since its key was free
    have hnew : ∀ {p}, p ∈ t.pipList → p.driver = pip.driver → p.driven = pip.driven → False := by
      intro p hp h₀ h₁
      have hsome := h.find hp
      rw [h₀, h₁, hnone] at hsome
      cases hsome
    intro p q hp hq h₀ h₁
    rcases List.mem_append.1 hp with hp | hp <;> rcases List.mem_append.1 hq with hq | hq
    · exact h.unique hp hq h₀ h₁
    · cases List.mem_singleton.1 hq
      exact (hnew hp h₀ h₁).elim
    · cases List.mem_singleton.1 hp
      exact (hnew hq h₀.symm h₁.symm).elim
    · rw [List.mem_singleton.1 hp, List.mem_singleton.1 hq]
  case lt =>
    intro p hp
    rcases List.mem_append.1 hp with hp | hp
    · exact h.lt hp
    · cases List.mem_singleton.1 hp
      exact ⟨hdriver, hdriven⟩

theorem Sound.addTileTypePip {t t' : TilePIPs} (h : t.Sound) {wire0 wire1 : Nat} {directional : Bool}
    (h₀ : wire0 < 2 ^ 32) (h₁ : wire1 < 2 ^ 32)
    (hadd : t.addTileTypePip wire0 wire1 directional = some t') : t'.Sound := by
  unfold TilePIPs.addTileTypePip at hadd
  obtain ⟨s, hs, hadd⟩ := Option.bind_eq_some_iff.1 hadd
  have hsound : s.Sound := by
    have hpip : (⟨wire0, wire1, true⟩ : TileTypePIP).driver < 2 ^ 32 := h₀
    exact h.addEdge hpip h₁ hs
  split at hadd
  · cases hadd
    exact hsound
  · have hpip : (⟨wire0, wire1, false⟩ : TileTypePIP).driver < 2 ^ 32 := h₁
    exact hsound.addEdge hpip h₀ hadd

/-- **The tables a device file is read into agree.** -/
theorem sound_read {pips : List RawPIP} (hlt : ∀ p ∈ pips, p.wire0 < 2 ^ 32 ∧ p.wire1 < 2 ^ 32)
    {t : TilePIPs} (hread : read pips = some t) : t.Sound := by
  have key : ∀ {s : TilePIPs}, s.Sound → pips.foldlM
      (fun t p => t.addTileTypePip p.wire0 p.wire1 p.directional) s = some t → t.Sound := by
    clear hread
    induction pips with
    | nil =>
      intro s hs h
      cases h
      exact hs
    | cons p pips ih =>
      intro s hs h
      rw [List.foldlM_cons] at h
      obtain ⟨s', hs', h⟩ := Option.bind_eq_some_iff.1 h
      obtain ⟨h₀, h₁⟩ := hlt p List.mem_cons_self
      exact ih (fun q hq => hlt q (List.mem_cons_of_mem p hq)) (hs.addTileTypePip h₀ h₁ hs') h
  exact key sound_empty hread

theorem pipList_addEdge {t t' : TilePIPs} {a b : Nat} {pip : TileTypePIP}
    (hadd : t.addEdge a b pip = some t') : t'.pipList = t.pipList ++ [pip] := by
  obtain ⟨-, rfl⟩ := addEdge_eq hadd
  rfl

theorem pipList_addTileTypePip {t t' : TilePIPs} {p : RawPIP}
    (hadd : t.addTileTypePip p.wire0 p.wire1 p.directional = some t') :
    t'.pipList = t.pipList ++ p.ways := by
  unfold addTileTypePip at hadd
  obtain ⟨s, hs, hadd⟩ := Option.bind_eq_some_iff.1 hadd
  have hforward := pipList_addEdge hs
  unfold RawPIP.ways
  split at hadd
  · next hdir =>
    cases hadd
    rw [hforward, if_pos hdir]
  · next hdir =>
    rw [pipList_addEdge hadd, hforward, if_neg hdir, List.append_assoc]
    rfl

/-- The PIP list has the PIPs of the file, each with the ways it leads. -/
theorem pipList_read {pips : List RawPIP} {t : TilePIPs} (hread : read pips = some t) :
    t.pipList = pips.flatMap RawPIP.ways := by
  have key : ∀ {s : TilePIPs}, pips.foldlM
      (fun t p => t.addTileTypePip p.wire0 p.wire1 p.directional) s = some t →
      t.pipList = s.pipList ++ pips.flatMap RawPIP.ways := by
    clear hread
    induction pips with
    | nil =>
      intro s h
      cases h
      rw [List.flatMap_nil, List.append_nil]
    | cons p pips ih =>
      intro s h
      rw [List.foldlM_cons] at h
      obtain ⟨s', hs', h⟩ := Option.bind_eq_some_iff.1 h
      rw [ih h, pipList_addTileTypePip hs', List.append_assoc, List.flatMap_cons]
  exact key hread

end TilePIPs

/-- A tile type of the device file, with the tables its PIPs are read into. -/
structure TileType where
  wireToNameIdx : Nat → Nat
  pips : List RawPIP
  tables : TilePIPs
  pips_lt : ∀ p ∈ pips, p.wire0 < 2 ^ 32 ∧ p.wire1 < 2 ^ 32
  read : TilePIPs.read pips = some tables

/-- A tile type whose PIPs can be read. -/
def TileType.ofPips (wireToNameIdx : Nat → Nat) (pips : List RawPIP)
    (hlt : ∀ p ∈ pips, p.wire0 < 2 ^ 32 ∧ p.wire1 < 2 ^ 32) (h : (TilePIPs.read pips).isSome) :
    TileType :=
  ⟨wireToNameIdx, pips, (TilePIPs.read pips).get h, hlt, (Option.some_get h).symm⟩

/-- A tile type without PIPs. -/
def TileType.noPips (wireToNameIdx : Nat → Nat) : TileType :=
  .ofPips wireToNameIdx [] (fun _ h => absurd h List.not_mem_nil) rfl

theorem TileType.sound (t : TileType) : t.tables.Sound := TilePIPs.sound_read t.pips_lt t.read

/-! ## The device -/

/-- The first wire of a node is in the tile where the node begins. A wire of a tile is listed with
the node it was last read for. A `NULL_TILE` with a wire of a node has no PIPs. -/
structure Device (V : Type) where
  siteNameToIdx : String → Option Nat
  sites : Nat → Site
  siteTypePinNameToIdx : Nat → String → Option Nat
  tileTypeSitePinToWireIdx : Nat → Nat → Nat → Nat
  tileTypes : Nat → TileType
  stringList : Nat → String
  tileToNameIdx : Nat → Nat
  tileToType : Nat → Nat
  tileWireToNode : Nat → Nat → Option V
  nodeToWires : V → List Wire
  beginTileId : V → Nat
  tileNameToIdx : String → Option Nat := fun _ => none
  tileNameToType : String → Option Nat := fun _ => none
  wireNameToIdxInTileType : Nat → String → Option Nat := fun _ _ => none
  nullTile_pips : ∀ {v w}, w ∈ nodeToWires v → w.tileTypeIdx = nullTile →
    (tileTypes nullTile).pips = []
  wire_type : ∀ {v w}, w ∈ nodeToWires v → w.tileTypeIdx = tileToType w.tileIdx
  wire_lt : ∀ {v w}, w ∈ nodeToWires v → w.wireInTileIdx < 2 ^ 32
  begin_eq : ∀ v, (nodeToWires v).head?.map Wire.tileIdx = some (beginTileId v)
  wire_of_node : ∀ {t i v}, tileWireToNode t i = some v →
    ∃ w ∈ nodeToWires v, w.tileIdx = t ∧ w.wireInTileIdx = i
  node_of_wire : ∀ {v w}, w ∈ nodeToWires v →
    (tileWireToNode w.tileIdx w.wireInTileIdx).isSome

namespace Device

variable {V : Type} (D : Device V)

def tileTypeOutgoingWires (tileType wire : Nat) : List Nat :=
  (D.tileTypes tileType).tables.outgoingWires wire

def tileTypeIncomingWires (tileType wire : Nat) : List Nat :=
  (D.tileTypes tileType).tables.incomingWires wire

def tileTypeNodePairToPipIdx (tileType uid : Nat) : Option Nat :=
  (D.tileTypes tileType).tables.nodePairToPipIdx uid

def tileTypePipList (tileType : Nat) : List TileTypePIP := (D.tileTypes tileType).tables.pipList

/-- The node a site pin is on. -/
def getSitePinNode (siteName pinName : String) : Option V := do
  let siteIdx ← D.siteNameToIdx siteName
  let site := D.sites siteIdx
  let pinIdx ← D.siteTypePinNameToIdx site.siteTypeIdx pinName
  let wireIdx := D.tileTypeSitePinToWireIdx site.tileTypeIdx site.inTileSiteIdx pinIdx
  D.tileWireToNode site.tileIdx wireIdx

/-- The node of a wire, by the names of its tile and the wire. -/
def getNodeIdx (tileName wireName : String) : Option V := do
  let tileIdx ← D.tileNameToIdx tileName
  let tileTypeIdx ← D.tileNameToType tileName
  let wireIdx ← D.wireNameToIdxInTileType tileTypeIdx wireName
  D.tileWireToNode tileIdx wireIdx

/-- A name goes with its index in the string list. -/
def getTileName (tileIdx : Nat) : Nat × String :=
  let idx := D.tileToNameIdx tileIdx
  (idx, D.stringList idx)

def getWireName (tileIdx wireIdx : Nat) : Nat × String :=
  let idx := (D.tileTypes (D.tileToType tileIdx)).wireToNameIdx wireIdx
  (idx, D.stringList idx)

/-! ## The edges of the device -/

def getOutgoingNodes (node : V) : List V :=
  (D.nodeToWires node).flatMap fun wire =>
    if wire.tileTypeIdx = nullTile then []
    else (D.tileTypeOutgoingWires wire.tileTypeIdx wire.wireInTileIdx).filterMap fun child =>
      D.tileWireToNode wire.tileIdx child

def getIncomingNodes (node : V) : List V :=
  (D.nodeToWires node).flatMap fun wire =>
    (D.tileTypeIncomingWires wire.tileTypeIdx wire.wireInTileIdx).filterMap fun parent =>
      D.tileWireToNode wire.tileIdx parent

/-- Every wire of a tile belongs to one node, which lists it once. -/
structure OneNode : Prop where
  unique : ∀ {u v w w'}, w ∈ D.nodeToWires u → w' ∈ D.nodeToWires v → w.tileIdx = w'.tileIdx →
    w.wireInTileIdx = w'.wireInTileIdx → u = v
  nodup : ∀ v, ((D.nodeToWires v).map fun w => (w.tileIdx, w.wireInTileIdx)).Nodup

/-- The index of the PIP from one wire to another of its tile type. -/
def pipIdx (node0Wire node1Wire : Wire) : Option Nat :=
  D.tileTypeNodePairToPipIdx node1Wire.tileTypeIdx
    (ints2long node0Wire.wireInTileIdx node1Wire.wireInTileIdx)

/-- There is a PIP from the one wire to the other in the tile they share. -/
def Joins (node0Wire node1Wire : Wire) : Prop :=
  node0Wire.tileIdx = node1Wire.tileIdx ∧ (D.pipIdx node0Wire node1Wire).isSome

instance (w₀ w₁ : Wire) : Decidable (D.Joins w₀ w₁) :=
  inferInstanceAs (Decidable (_ ∧ _))

/-- A PIP leads from the one node to the other. -/
def HasPip (node0 node1 : V) : Prop :=
  ∃ w₁ ∈ D.nodeToWires node1, ∃ w₀ ∈ D.nodeToWires node0, D.Joins w₀ w₁

instance (node0 node1 : V) : Decidable (D.HasPip node0 node1) :=
  inferInstanceAs (Decidable (∃ w₁ ∈ _, ∃ w₀ ∈ _, _))

/-! ## The PIP between two nodes -/

/-- The inner loop stops at the first wire that fits, the outer loop goes on: the last wire of the
second node that has a partner decides. -/
def findWires (node0 node1 : V) : Option (Wire × Wire) :=
  (D.nodeToWires node1).foldl (fun found node1Wire =>
    match (D.nodeToWires node0).find? (fun node0Wire => D.Joins node0Wire node1Wire) with
    | some node0Wire => some (node0Wire, node1Wire)
    | none => found) none

/-- The program stops when there is no PIP. -/
def getTileTypePIP (node0 node1 : V) : Option TileTypePIP := do
  let (node0Wire, node1Wire) ← D.findWires node0 node1
  let idx ← D.pipIdx node0Wire node1Wire
  (D.tileTypePipList node1Wire.tileTypeIdx)[idx]?

variable {D}

theorem OneNode.tileWireToNode_eq (h : D.OneNode) {w : Wire} {v : V} (hw : w ∈ D.nodeToWires v) :
    D.tileWireToNode w.tileIdx w.wireInTileIdx = some v := by
  obtain ⟨u, hu⟩ := Option.isSome_iff_exists.1 (D.node_of_wire hw)
  obtain ⟨w', hw', htile, hwire⟩ := D.wire_of_node hu
  rw [hu, h.unique hw' hw htile hwire]

theorem joins_of_findWires {node0 node1 : V} {w : Wire × Wire}
    (h : D.findWires node0 node1 = some w) :
    w.1 ∈ D.nodeToWires node0 ∧ w.2 ∈ D.nodeToWires node1 ∧ D.Joins w.1 w.2 := by
  unfold findWires at h
  generalize D.nodeToWires node1 = ws at h ⊢
  induction ws using List.reverseRecOn with
  | nil => cases h
  | append_singleton ws w₁ ih =>
    rw [List.foldl_append, List.foldl_cons, List.foldl_nil] at h
    split at h
    · next w₀ hfind =>
      cases h
      have hjoin := List.find?_some hfind
      exact ⟨List.mem_of_find?_eq_some hfind, List.mem_append_right ws (List.mem_singleton_self w₁),
        of_decide_eq_true hjoin⟩
    · obtain ⟨h₀, h₁, hjoin⟩ := ih h
      exact ⟨h₀, List.mem_append_left _ h₁, hjoin⟩

theorem findWires_isSome {node0 node1 : V} (h : D.HasPip node0 node1) :
    (D.findWires node0 node1).isSome := by
  obtain ⟨w₁, hw₁, w₀, hw₀, hjoin⟩ := h
  unfold findWires
  generalize D.nodeToWires node1 = ws at hw₁
  induction ws using List.reverseRecOn with
  | nil => cases hw₁
  | append_singleton ws w ih =>
    rw [List.foldl_append, List.foldl_cons, List.foldl_nil]
    split
    · rfl
    · next hnone =>
      -- the partner of `w₁` was met before, since `w` has none
      rcases List.mem_append.1 hw₁ with hmem | hmem
      · exact ih hmem
      · rw [List.mem_singleton.1 hmem] at hjoin
        exact absurd (decide_eq_true hjoin) (List.find?_eq_none.1 hnone w₀ hw₀)

/-- The PIP of two joined wires leads from the one to the other. -/
theorem exists_pip_of_joins {node0 node1 : V} {w₀ w₁ : Wire} (h₀ : w₀ ∈ D.nodeToWires node0)
    (h₁ : w₁ ∈ D.nodeToWires node1) (hjoin : D.Joins w₀ w₁) :
    ∃ i pip, D.pipIdx w₀ w₁ = some i ∧ (D.tileTypePipList w₁.tileTypeIdx)[i]? = some pip ∧
      pip.driver = w₀.wireInTileIdx ∧ pip.driven = w₁.wireInTileIdx := by
  obtain ⟨i, hi⟩ := Option.isSome_iff_exists.1 hjoin.2
  have hsound := (D.tileTypes w₁.tileTypeIdx).sound
  obtain ⟨pip, hpip, hkey⟩ := hsound.get hi
  obtain ⟨hdriver, hdriven⟩ := hsound.lt (List.mem_of_getElem? hpip)
  obtain ⟨heq₀, heq₁⟩ := (ints2long_inj (D.wire_lt h₀) (D.wire_lt h₁) hdriver hdriven).1 hkey
  exact ⟨i, pip, hi, hpip, heq₀.symm, heq₁.symm⟩

theorem getTileTypePIP_eq {node0 node1 : V} {w₀ w₁ : Wire}
    (h : D.findWires node0 node1 = some (w₀, w₁)) :
    ∃ pip, D.getTileTypePIP node0 node1 = some pip ∧ pip ∈ D.tileTypePipList w₁.tileTypeIdx ∧
      pip.driver = w₀.wireInTileIdx ∧ pip.driven = w₁.wireInTileIdx := by
  obtain ⟨h₀, h₁, hjoin⟩ := joins_of_findWires h
  obtain ⟨i, pip, hi, hpip, hends⟩ := exists_pip_of_joins h₀ h₁ hjoin
  refine ⟨pip, ?_, List.mem_of_getElem? hpip, hends⟩
  unfold getTileTypePIP
  rw [h, Option.bind_eq_bind, Option.bind_some]
  dsimp only at hi ⊢
  rw [hi, Option.bind_eq_bind, Option.bind_some, hpip]

theorem getTileTypePIP_isSome {node0 node1 : V} (h : D.HasPip node0 node1) :
    (D.getTileTypePIP node0 node1).isSome := by
  obtain ⟨w, hw⟩ := Option.isSome_iff_exists.1 (findWires_isSome h)
  obtain ⟨pip, hpip, -⟩ := getTileTypePIP_eq hw
  exact Option.isSome_of_eq_some hpip

variable (D) in
/-- A PIP of the tile type of some tile leads from a wire of `u` to a wire of `v` there. -/
structure Drives (u v : V) (w₀ w₁ : Wire) (pip : TileTypePIP) : Prop where
  wire₀ : w₀ ∈ D.nodeToWires u
  wire₁ : w₁ ∈ D.nodeToWires v
  tile : w₀.tileIdx = w₁.tileIdx
  listed : ∃ p ∈ (D.tileTypes (D.tileToType w₁.tileIdx)).pips, pip ∈ p.ways
  driver : pip.driver = w₀.wireInTileIdx
  driven : pip.driven = w₁.wireInTileIdx

theorem drives_of_getTileTypePIP {u v : V} {pip : TileTypePIP}
    (h : D.getTileTypePIP u v = some pip) : ∃ w₀ w₁, D.Drives u v w₀ w₁ pip := by
  obtain ⟨⟨w₀, w₁⟩, hfind, -⟩ := Option.bind_eq_some_iff.1 h
  obtain ⟨h₀, h₁, hjoin⟩ := joins_of_findWires hfind
  obtain ⟨pip', hpip', hlisted, hdriver, hdriven⟩ := getTileTypePIP_eq hfind
  cases hpip'.symm.trans h
  refine ⟨w₀, w₁, h₀, h₁, hjoin.1, ?_, hdriver, hdriven⟩
  have hmem : pip ∈ (D.tileTypes (D.tileToType w₁.tileIdx)).tables.pipList := by
    rw [← D.wire_type h₁]
    exact hlisted
  rw [TilePIPs.pipList_read (D.tileTypes _).read] at hmem
  exact List.mem_flatMap.1 hmem

theorem getTileTypePIP_isSome_iff {u v : V} : (D.getTileTypePIP u v).isSome ↔ D.HasPip u v := by
  refine ⟨fun h => ?_, getTileTypePIP_isSome⟩
  obtain ⟨pip, hpip⟩ := Option.isSome_iff_exists.1 h
  obtain ⟨⟨w₀, w₁⟩, hfind, -⟩ := Option.bind_eq_some_iff.1 hpip
  obtain ⟨h₀, h₁, hjoin⟩ := joins_of_findWires hfind
  exact ⟨w₁, h₁, w₀, h₀, hjoin⟩

/-- The PIPs in the tile types of a device lead between nodes. -/
theorem hasPip_of_mem_getOutgoingNodes {u v : V} (h : v ∈ D.getOutgoingNodes u) : D.HasPip u v := by
  obtain ⟨w₀, hw₀, hmem⟩ := List.mem_flatMap.1 h
  split at hmem
  · cases hmem
  · obtain ⟨child, hchild, hnode⟩ := List.mem_filterMap.1 hmem
    obtain ⟨w₁, hw₁, htile, hwire⟩ := D.wire_of_node hnode
    have htype : w₁.tileTypeIdx = w₀.tileTypeIdx := by
      rw [D.wire_type hw₁, D.wire_type hw₀, htile]
    obtain ⟨pip, hpip, hdriver, hdriven⟩ := (D.tileTypes w₀.tileTypeIdx).sound.outgoing.1 hchild
    have hfind := (D.tileTypes w₀.tileTypeIdx).sound.find hpip
    refine ⟨w₁, hw₁, w₀, hw₀, htile.symm, ?_⟩
    unfold pipIdx tileTypeNodePairToPipIdx
    rw [htype, hwire, ← hdriver, ← hdriven]
    exact hfind

theorem tables_nullTile {v : V} {w : Wire} (hw : w ∈ D.nodeToWires v)
    (hnull : w.tileTypeIdx = nullTile) : (D.tileTypes nullTile).tables = TilePIPs.empty := by
  have hread := (D.tileTypes nullTile).read
  rw [D.nullTile_pips hw hnull] at hread
  exact (Option.some.inj hread).symm

/-- **The edges of the device are its PIPs.** -/
theorem OneNode.mem_getOutgoingNodes_iff (h : D.OneNode) {u v : V} :
    v ∈ D.getOutgoingNodes u ↔ D.HasPip u v := by
  refine ⟨hasPip_of_mem_getOutgoingNodes, ?_⟩
  rintro ⟨w₁, hw₁, w₀, hw₀, hjoin⟩
  have htype : w₁.tileTypeIdx = w₀.tileTypeIdx := by
    rw [D.wire_type hw₁, D.wire_type hw₀, hjoin.1]
  obtain ⟨i, pip, -, hpip, hdriver, hdriven⟩ := exists_pip_of_joins hw₀ hw₁ hjoin
  have hmem := List.mem_of_getElem? hpip
  unfold tileTypePipList at hmem
  rw [htype] at hmem
  have hnull : w₀.tileTypeIdx ≠ nullTile := by
    intro hnull
    rw [hnull, tables_nullTile hw₀ hnull] at hmem
    cases hmem
  refine List.mem_flatMap.2 ⟨w₀, hw₀, ?_⟩
  rw [if_neg hnull]
  refine List.mem_filterMap.2 ⟨w₁.wireInTileIdx, ?_, ?_⟩
  · exact (D.tileTypes w₀.tileTypeIdx).sound.outgoing.2 ⟨pip, hmem, hdriver, hdriven⟩
  · rw [hjoin.1]
    exact h.tileWireToNode_eq hw₁

/-! ## Edges forward and backward -/

section Count

variable [DecidableEq V]

theorem OneNode.count_filterMap (h : D.OneNode) (t : Nat) (v : V) (l : List Nat) :
    (l.filterMap fun i => D.tileWireToNode t i).count v =
      ((D.nodeToWires v).map fun w => if w.tileIdx = t then l.count w.wireInTileIdx else 0).sum := by
  have hnode (i : Nat) : D.tileWireToNode t i = some v ↔
      (t, i) ∈ (D.nodeToWires v).map fun w => (w.tileIdx, w.wireInTileIdx) := by
    rw [List.mem_map]
    constructor
    · intro hnode
      obtain ⟨w, hw, htile, hwire⟩ := D.wire_of_node hnode
      exact ⟨w, hw, by rw [htile, hwire]⟩
    · rintro ⟨w, hw, heq⟩
      cases heq
      exact h.tileWireToNode_eq hw
  calc (l.filterMap fun i => D.tileWireToNode t i).count v
      = l.countP fun i => (t, i) ∈ (D.nodeToWires v).map fun w => (w.tileIdx, w.wireInTileIdx) := by
        rw [List.count_filterMap]
        refine List.countP_congr fun i _ => ?_
        rw [beq_iff_eq, decide_eq_true_iff, hnode]
    _ = _ := by
        rw [countP_mem_pairs t l (h.nodup v), List.map_map]
        rfl

/-- **An edge is listed as often at its start as at its end.** -/
theorem OneNode.count_getOutgoingNodes (h : D.OneNode) (u v : V) :
    (D.getOutgoingNodes u).count v = (D.getIncomingNodes v).count u := by
  have hout : (D.getOutgoingNodes u).count v = ((D.nodeToWires u).map fun w =>
      ((D.nodeToWires v).map fun w' => if w'.tileIdx = w.tileIdx then
        (D.tileTypeOutgoingWires w.tileTypeIdx w.wireInTileIdx).count w'.wireInTileIdx
        else 0).sum).sum := by
    unfold getOutgoingNodes
    rw [List.count_flatMap]
    congr 1
    refine List.map_congr_left fun w hw => ?_
    rw [Function.comp_apply, ← h.count_filterMap]
    split
    · next hnull =>
      unfold tileTypeOutgoingWires
      rw [hnull, tables_nullTile hw hnull]
      rfl
    · rfl
  have hin : (D.getIncomingNodes v).count u = ((D.nodeToWires v).map fun w' =>
      ((D.nodeToWires u).map fun w => if w.tileIdx = w'.tileIdx then
        (D.tileTypeIncomingWires w'.tileTypeIdx w'.wireInTileIdx).count w.wireInTileIdx
        else 0).sum).sum := by
    unfold getIncomingNodes
    rw [List.count_flatMap]
    congr 1
    refine List.map_congr_left fun w' _ => ?_
    rw [Function.comp_apply, ← h.count_filterMap]
  rw [hout, hin, sum_map_sum_comm]
  congr 1
  refine List.map_congr_left fun w' hw' => ?_
  congr 1
  refine List.map_congr_left fun w hw => ?_
  by_cases htile : w.tileIdx = w'.tileIdx
  · have htype : w.tileTypeIdx = w'.tileTypeIdx := by
      rw [D.wire_type hw, D.wire_type hw', htile]
    rw [if_pos htile, if_pos htile.symm, htype]
    exact (D.tileTypes w'.tileTypeIdx).sound.count_eq w.wireInTileIdx w'.wireInTileIdx
  · rw [if_neg htile, if_neg (Ne.symm htile)]

/-- **The three views of the device agree**: the edges listed at their start, the edges listed at
their end, and the PIP that is found between two nodes. -/
theorem OneNode.views_agree (h : D.OneNode) (u v : V) :
    (D.getOutgoingNodes u).count v = (D.getIncomingNodes v).count u ∧
    (0 < (D.getOutgoingNodes u).count v ↔ (D.getTileTypePIP u v).isSome) ∧
    ∀ pip, D.getTileTypePIP u v = some pip → ∃ w₀ w₁, D.Drives u v w₀ w₁ pip := by
  refine ⟨h.count_getOutgoingNodes u v, ?_, fun pip => drives_of_getTileTypePIP⟩
  rw [List.count_pos_iff, h.mem_getOutgoingNodes_iff, getTileTypePIP_isSome_iff]

end Count

/-! Two tiles of one type, in which a PIP leads from wire 0 to wire 1. Node 1 begins in tile 0 and goes
on to tile 1, where node 0 drives it; in tile 0 it drives node 2. -/

def twoTiles : Device (Fin 3) where
  siteNameToIdx _ := none
  sites _ := ⟨0, 0, 0, 0⟩
  siteTypePinNameToIdx _ _ := none
  tileTypeSitePinToWireIdx _ _ _ := 0
  tileTypes t :=
    if t = 0 then .ofPips id [⟨0, 1, true⟩] (by decide) (by decide)
    else .noPips id
  stringList _ := ""
  tileToNameIdx t := t
  tileToType _ := 0
  tileWireToNode t i := if t = 0 then [1, 2][i]? else if t = 1 then [0, 1][i]? else none
  nodeToWires v :=
    if v = 0 then [⟨1, 0, 0⟩] else if v = 1 then [⟨0, 0, 0⟩, ⟨1, 0, 1⟩] else [⟨0, 0, 1⟩]
  beginTileId v := if v = 0 then 1 else 0
  nullTile_pips := fun _ _ => rfl
  wire_type := by
    intro v w hw
    revert w
    revert v
    decide
  wire_lt := by
    intro v w hw
    revert w
    revert v
    decide
  begin_eq := by decide
  wire_of_node := by
    intro t i v h
    match t, i with
    | 0, 0 => cases h; decide
    | 0, 1 => cases h; decide
    | 0, i + 2 => cases h
    | 1, 0 => cases h; decide
    | 1, 1 => cases h; decide
    | 1, i + 2 => cases h
    | t + 2, i => cases h
  node_of_wire := by
    intro v w hw
    revert w
    revert v
    decide

theorem oneNode_twoTiles : twoTiles.OneNode where
  unique := by
    intro u v w w' hw hw' htile hwire
    have key : ∀ u v : Fin 3, ∀ w ∈ twoTiles.nodeToWires u, ∀ w' ∈ twoTiles.nodeToWires v,
        w.tileIdx = w'.tileIdx → w.wireInTileIdx = w'.wireInTileIdx → u = v := by decide
    exact key u v w hw w' hw' htile hwire
  nodup := by decide

theorem views_agree_twoTiles :
    (twoTiles.getOutgoingNodes 0).count 1 = (twoTiles.getIncomingNodes 1).count 0 ∧
    (0 < (twoTiles.getOutgoingNodes 0).count 1 ↔ (twoTiles.getTileTypePIP 0 1).isSome) ∧
    ∀ pip, twoTiles.getTileTypePIP 0 1 = some pip → ∃ w₀ w₁, twoTiles.Drives 0 1 w₀ w₁ pip :=
  oneNode_twoTiles.views_agree 0 1

/-! ## The PIP that is written -/

variable (D) in
/-- The PIP, read in the tile where the second node begins, is a PIP of that tile and leads from the
first node to the second. -/
structure Denotes (u v : V) (pip : TileTypePIP) : Prop where
  listed : pip ∈ D.tileTypePipList (D.tileToType (D.beginTileId v))
  driver : D.tileWireToNode (D.beginTileId v) pip.driver = some u
  driven : D.tileWireToNode (D.beginTileId v) pip.driven = some v

variable (D) in
/-- Going through the wires of `v` in order, the last that is joined from a wire of `u` is `w₁`, and
the first wire of `u` it is joined from is `w₀`. -/
structure LastJoin (u v : V) (w₀ w₁ : Wire) : Prop where
  joins : D.Joins w₀ w₁
  last : ∃ before after, D.nodeToWires v = before ++ w₁ :: after ∧
    ∀ w ∈ after, ∀ w' ∈ D.nodeToWires u, ¬ D.Joins w' w
  first : ∃ before after, D.nodeToWires u = before ++ w₀ :: after ∧
    ∀ w ∈ before, ¬ D.Joins w w₁

variable (D) in
/-- The PIP from one wire to another of its tile type. -/
def pipOf (w₀ w₁ : Wire) : Option TileTypePIP :=
  (D.pipIdx w₀ w₁).bind fun i => (D.tileTypePipList w₁.tileTypeIdx)[i]?

variable (D) in
/-- The PIP that is met last is also one between wires of the two nodes in the tile where the second
begins. -/
def LastJoinAtBegin (u v : V) : Prop :=
  ∃ w₀ w₁, D.LastJoin u v w₀ w₁ ∧ ∃ a ∈ D.nodeToWires u, ∃ b ∈ D.nodeToWires v,
    a.tileIdx = D.beginTileId v ∧ b.tileIdx = D.beginTileId v ∧
    a.wireInTileIdx = w₀.wireInTileIdx ∧ b.wireInTileIdx = w₁.wireInTileIdx ∧
    D.pipOf a b = D.pipOf w₀ w₁

theorem findWires_eq_of_lastJoin {u v : V} {w₀ w₁ : Wire} (h : D.LastJoin u v w₀ w₁) :
    D.findWires u v = some (w₀, w₁) := by
  obtain ⟨before, after, hv, hafter⟩ := h.last
  have hfind : (D.nodeToWires u).find? (fun w => D.Joins w w₁) = some w₀ := by
    obtain ⟨pre, post, hu, hpre⟩ := h.first
    rw [hu, List.find?_append, List.find?_eq_none.2, Option.none_or, List.find?_cons_of_pos]
    · exact decide_eq_true h.joins
    · intro w hw hjoin
      exact hpre w hw (of_decide_eq_true hjoin)
  unfold findWires
  rw [hv, List.foldl_append, List.foldl_cons, hfind]
  clear hv hfind
  -- no wire behind `w₁` changes what was found
  induction after with
  | nil => rfl
  | cons w after ih =>
    have hnone : (D.nodeToWires u).find? (fun w' => D.Joins w' w) = none := by
      rw [List.find?_eq_none]
      intro w' hw' hjoin
      exact hafter w List.mem_cons_self w' hw' (of_decide_eq_true hjoin)
    rw [List.foldl_cons, hnone]
    exact ih fun w' hw' => hafter w' (List.mem_cons_of_mem w hw')

theorem lastJoin_of_findWires {u v : V} {w₀ w₁ : Wire} (h : D.findWires u v = some (w₀, w₁)) :
    D.LastJoin u v w₀ w₁ := by
  obtain ⟨-, -, hjoin⟩ := joins_of_findWires h
  have key : ∃ before after, D.nodeToWires v = before ++ w₁ :: after ∧
      (∀ w ∈ after, ∀ w' ∈ D.nodeToWires u, ¬ D.Joins w' w) ∧
      (D.nodeToWires u).find? (fun w => D.Joins w w₁) = some w₀ := by
    unfold findWires at h
    generalize D.nodeToWires v = ws at h ⊢
    induction ws using List.reverseRecOn with
    | nil => cases h
    | append_singleton ws w ih =>
      rw [List.foldl_append, List.foldl_cons, List.foldl_nil] at h
      split at h
      · next w₀' hfind =>
        cases h
        refine ⟨ws, [], rfl, fun w hw => ?_, hfind⟩
        cases hw
      · next hnone =>
        obtain ⟨before, after, rfl, hafter, hfind⟩ := ih h
        refine ⟨before, after ++ [w], ?_, fun x hx => ?_, hfind⟩
        · rw [List.append_assoc, List.cons_append]
        · rcases List.mem_append.1 hx with hx | hx
          · exact hafter x hx
          · intro w' hw' hjoin'
            rw [List.mem_singleton.1 hx] at hjoin'
            exact List.find?_eq_none.1 hnone w' hw' (decide_eq_true hjoin')
  obtain ⟨before, after, hv, hafter, hfind⟩ := key
  obtain ⟨-, pre, post, hu, hpre⟩ := List.find?_eq_some_iff_append.1 hfind
  refine ⟨hjoin, ⟨before, after, hv, hafter⟩, pre, post, hu, fun w hw hjoin' => ?_⟩
  have hfalse := hpre w hw
  rw [decide_eq_true hjoin'] at hfalse
  cases hfalse

theorem getTileTypePIP_eq_pipOf {u v : V} {w₀ w₁ : Wire} (h : D.findWires u v = some (w₀, w₁)) :
    D.getTileTypePIP u v = D.pipOf w₀ w₁ := by
  unfold getTileTypePIP
  rw [h]
  rfl

/-- In the tile where `v` begins, a PIP of the tile with the ends of a join is the PIP of the wires
there. -/
theorem pipOf_eq_of_denotes {u v : V} {pip : TileTypePIP} (h : D.Denotes u v pip) :
    ∃ a ∈ D.nodeToWires u, ∃ b ∈ D.nodeToWires v,
      a.tileIdx = D.beginTileId v ∧ b.tileIdx = D.beginTileId v ∧
      a.wireInTileIdx = pip.driver ∧ b.wireInTileIdx = pip.driven ∧ D.pipOf a b = some pip := by
  obtain ⟨a, ha, hatile, hawire⟩ := D.wire_of_node h.driver
  obtain ⟨b, hb, hbtile, hbwire⟩ := D.wire_of_node h.driven
  refine ⟨a, ha, b, hb, hatile, hbtile, hawire, hbwire, ?_⟩
  have hlisted := h.listed
  rw [← hbtile, ← D.wire_type hb] at hlisted
  have hsound := (D.tileTypes b.tileTypeIdx).sound
  have hjoin : D.Joins a b := by
    refine ⟨hatile.trans hbtile.symm, ?_⟩
    unfold pipIdx
    rw [hawire, hbwire]
    exact hsound.find hlisted
  obtain ⟨i, pip', hi, hpip', hdriver, hdriven⟩ := exists_pip_of_joins ha hb hjoin
  have heq : pip' = pip := hsound.unique (List.mem_of_getElem? hpip') hlisted
    (hdriver.trans hawire) (hdriven.trans hbwire)
  unfold pipOf
  rw [hi, Option.bind_some, hpip', heq]

/-- **The PIP that is written for an edge denotes it exactly if the PIP that is met last is also one
in the tile where the edge's end begins.** -/
theorem getTileTypePIP_denotes_iff (h : D.OneNode) {u v : V} (hedge : v ∈ D.getOutgoingNodes u) :
    (∃ pip, D.getTileTypePIP u v = some pip ∧ D.Denotes u v pip) ↔ D.LastJoinAtBegin u v := by
  obtain ⟨⟨w₀, w₁⟩, hfind⟩ :=
    Option.isSome_iff_exists.1 (findWires_isSome (hasPip_of_mem_getOutgoingNodes hedge))
  obtain ⟨pip, hget, -, hdriver, hdriven⟩ := getTileTypePIP_eq hfind
  have hpipOf : D.pipOf w₀ w₁ = some pip := (getTileTypePIP_eq_pipOf hfind).symm.trans hget
  constructor
  · rintro ⟨pip', hget', hdenotes⟩
    cases hget.symm.trans hget'
    obtain ⟨a, ha, b, hb, hatile, hbtile, hawire, hbwire, hpip⟩ := pipOf_eq_of_denotes hdenotes
    exact ⟨w₀, w₁, lastJoin_of_findWires hfind, a, ha, b, hb, hatile, hbtile,
      hawire.trans hdriver, hbwire.trans hdriven, hpip.trans hpipOf.symm⟩
  · rintro ⟨w₀', w₁', hlast, a, ha, b, hb, hatile, hbtile, hawire, hbwire, hpip⟩
    cases hfind.symm.trans (findWires_eq_of_lastJoin hlast)
    rw [hpipOf] at hpip
    obtain ⟨i, -, hlisted⟩ := Option.bind_eq_some_iff.1 hpip
    refine ⟨pip, hget, ?_, ?_, ?_⟩
    · rw [← hbtile, ← D.wire_type hb]
      exact List.mem_of_getElem? hlisted
    · rw [hdriver, ← hawire, ← hatile]
      exact h.tileWireToNode_eq ha
    · rw [hdriven, ← hbwire, ← hbtile]
      exact h.tileWireToNode_eq hb

/-- The PIP from node 1 to node 2 is in the tile where node 2 begins. -/
theorem getTileTypePIP_denotes_iff_twoTiles : 2 ∈ twoTiles.getOutgoingNodes 1 ∧
    ∃ pip, twoTiles.getTileTypePIP 1 2 = some pip ∧ twoTiles.Denotes 1 2 pip := by
  have hedge : 2 ∈ twoTiles.getOutgoingNodes 1 := by decide
  refine ⟨hedge, (getTileTypePIP_denotes_iff oneNode_twoTiles hedge).2 ?_⟩
  have hlast : twoTiles.LastJoin 1 2 ⟨0, 0, 0⟩ ⟨0, 0, 1⟩ :=
    { joins := by decide
      last := ⟨[], [], rfl, by decide⟩
      first := ⟨[], [⟨1, 0, 1⟩], rfl, by decide⟩ }
  exact ⟨_, _, hlast, ⟨0, 0, 0⟩, by decide, ⟨0, 0, 1⟩, by decide, rfl, rfl, rfl, rfl, rfl⟩

/-- The PIP from node 0 to node 1 is in tile 1, but is written for tile 0, where its first wire is of
node 1. -/
theorem getTileTypePIP_elsewhere_twoTiles : twoTiles.OneNode ∧ 1 ∈ twoTiles.getOutgoingNodes 0 ∧
    twoTiles.getTileTypePIP 0 1 = some ⟨0, 1, true⟩ ∧ twoTiles.beginTileId 1 = 0 ∧
    ¬ ∃ pip, twoTiles.getTileTypePIP 0 1 = some pip ∧ twoTiles.Denotes 0 1 pip := by
  have hget : twoTiles.getTileTypePIP 0 1 = some ⟨0, 1, true⟩ := by decide
  refine ⟨oneNode_twoTiles, by decide, hget, rfl, ?_⟩
  rintro ⟨pip, hpip, hdenotes⟩
  cases hget.symm.trans hpip
  have hdriver := hdenotes.driver
  revert hdriver
  decide

end Device

end Potter
