import Potter.Db.Database
import Potter.Db.ParseNetlist
import Potter.Db.PinProjection
import Potter.Lib.BackLists
import Potter.Lib.Interleaving

/-!
# The nets and connections of the netlist

`parseNetlist` makes a net of every signal net that has a source pin and a sink pin, and a connection
of every sink pin. The connection is indirect if the sink pin can be traced back to an interconnect
tile and a source pin forth to one, and direct otherwise.

The reader numbers nets and connections as it goes, and stops the program in many places. What it
returns is what the router takes for granted (`WellRead`, `toDatabase`): connections and nets refer
to each other, the connections of a net have one source, and the fixed paths lead from the source pin
to the source and from the sink to the sink pin.

The pins of a net are collected by `extractSitePins`, which reads every branch just after it was popped
from its queue: see `Potter.Db.ParseNetlist`.
-/

namespace Potter

open Lib

/-! ## What is read -/

/-- A net of the file. Of the stub nodes only the number is looked at. -/
structure RawNet extends PhysNet where
  stubNodesSize : Nat

structure ReadConnection (V : Type) where
  id : Nat
  netId : Nat
  source : V
  sink : V
  intToSinkPath : List V
  sourceToIntPath : List V

structure ReadNet (V : Type) where
  id : Nat
  oriId : Nat
  indirectConns : List Nat
  directConns : List Nat
  indirectSource : Option V
  indirectSourcePin : Option V
  indirectSinkPins : List V
  directSourcePin : Option V
  directSinkPins : List V

/-- A net that was just appended. Its `oriId` is set in the end. -/
def ReadNet.init {V : Type} (id : Nat) : ReadNet V := ⟨id, 0, [], [], none, none, [], none, []⟩

/-- What the reader fills, and its counters. -/
structure ReadState (V : Type) where
  nets : List (ReadNet V)
  indirectConnections : List (ReadConnection V)
  directConnections : List (ReadConnection V)
  nodeType : V → NodeType
  preservedNodes : V → Bool
  netNum : Nat
  connNum : Nat
  indirectConnNum : Nat
  directConnNum : Nat
  multiSrcNetNum : Nat

def ReadState.init {V : Type} (nodeType : V → NodeType) : ReadState V :=
  ⟨[], [], [], nodeType, fun _ => false, 0, 0, 0, 0, 0⟩

/-- A net's source is set again for each of its connections. The program stops if it differs. -/
def setOnce {V : Type} [DecidableEq V] (old : Option V) (v : V) : Option (Option V) :=
  match old with
  | none => some (some v)
  | some u => if u = v then some (some u) else none

/-- An interconnect node that drives a net, with the source pin and the path between them. -/
structure IndirectSource (V : Type) where
  node : V
  pin : V
  path : List V

/-- The first source pin of a net and where it leads; the same for the second one, if there is one. -/
structure SourceNodes (V : Type) where
  srcNodeIdx : V
  srcInt : Option (V × List V)
  alt : Option (V × Option (V × List V))

/-- The source of the indirect connections. The second pin counts only if the first leads nowhere. -/
def SourceNodes.real {V : Type} (s : SourceNodes V) : Option (IndirectSource V) :=
  match s.srcInt, s.alt with
  | some (node, path), _ => some ⟨node, s.srcNodeIdx, path⟩
  | none, some (alt, some (node, path)) => some ⟨node, alt, path⟩
  | none, _ => none

section Append

variable {V : Type} [DecidableEq V]

def ReadState.addIndirect (st : ReadState V) (source : IndirectSource V) (sink : V) (path : List V) :
    ReadState V :=
  { st with
    nodeType := Function.update (Function.update st.nodeType source.node .pinfeedO) sink .pinfeedI
    indirectConnections := st.indirectConnections ++
      [⟨st.indirectConnNum, st.netNum, source.node, sink, path, source.path⟩]
    connNum := st.connNum + 1
    indirectConnNum := st.indirectConnNum + 1 }

/-- The sink of a direct connection is not marked, and the connection is not counted in `connNum`. -/
def ReadState.addDirect (st : ReadState V) (src sink : V) : ReadState V :=
  { st with
    nodeType := Function.update st.nodeType src .pinfeedO
    directConnections := st.directConnections ++ [⟨st.directConnNum, st.netNum, src, sink, [], []⟩]
    directConnNum := st.directConnNum + 1 }

def ReadNet.addIndirect (net : ReadNet V) (conn : Nat) (source : IndirectSource V) (sinkPin : V) :
    Option (ReadNet V) := do
  let indirectSource ← setOnce net.indirectSource source.node
  let indirectSourcePin ← setOnce net.indirectSourcePin source.pin
  some { net with
    indirectConns := net.indirectConns ++ [conn]
    indirectSource := indirectSource
    indirectSourcePin := indirectSourcePin
    indirectSinkPins := net.indirectSinkPins ++ [sinkPin] }

def ReadNet.addDirect (net : ReadNet V) (conn : Nat) (sourcePin sinkPin : V) :
    Option (ReadNet V) := do
  let directSourcePin ← setOnce net.directSourcePin sourcePin
  some { net with
    directConns := net.directConns ++ [conn]
    directSourcePin := directSourcePin
    directSinkPins := net.directSinkPins ++ [sinkPin] }

end Append

namespace Device

variable {V : Type} [DecidableEq V] (device : Device V) (fuel : Nat) (strList : List String)

/-! ## The reader -/

/-- The node of a site pin, or `invalid_obj_idx`. A name that is not known is not checked for. -/
def sitePinNodeIdx (sp : PhysSitePin) : Option (Option V) := do
  let siteName ← strList[sp.site]?
  let pinName ← strList[sp.pin]?
  let siteIdx ← device.siteNameToIdx siteName
  let site := device.sites siteIdx
  let pinIdx ← device.siteTypePinNameToIdx site.siteTypeIdx pinName
  let wireIdx := device.tileTypeSitePinToWireIdx site.tileTypeIdx site.inTileSiteIdx pinIdx
  some (device.tileWireToNode site.tileIdx wireIdx)

/-- One or two source pins with a node are expected. The first one is used without a check that it is
there; three end the program. -/
def readSources (sourcePins : List PhysSitePin) : Option (SourceNodes V) := do
  let nodes ← sourcePins.mapM (device.sitePinNodeIdx strList)
  match nodes.filterMap id with
  | [src] =>
    let srcInt ← device.projectOutputNodeToIntNode fuel (some src)
    some ⟨src, srcInt, none⟩
  | [src, alt] =>
    let srcInt ← device.projectOutputNodeToIntNode fuel (some src)
    let altInt ← device.projectOutputNodeToIntNode fuel (some alt)
    some ⟨src, srcInt, some (alt, altInt)⟩
  | _ => none

/-- The connection of one sink pin. The net is kept apart until it is complete. A sink pin without a
node is an index out of range, whatever the kind of the connection. -/
def addSink (s : SourceNodes V) (sp : PhysSitePin) (p : ReadState V × ReadNet V) :
    Option (ReadState V × ReadNet V) := do
  let sinkNode ← device.pinNode strList sp
  let path ← device.projectInputNodeToIntNode fuel (some sinkNode)
  match path, s.real with
  | sink :: _, some source =>
    let net ← p.2.addIndirect p.1.indirectConnNum source sinkNode
    some (p.1.addIndirect source sink path, net)
  | _, _ =>
    if s.srcNodeIdx = sinkNode then none
    else
      let net ← p.2.addDirect p.1.directConnNum s.srcNodeIdx sinkNode
      some (p.1.addDirect s.srcNodeIdx sinkNode, net)

/-- A net that is to be routed. -/
def readSignalNet (netIdx : Nat) (sourcePins sinkPins : List PhysSitePin) (st : ReadState V) :
    Option (ReadState V) := do
  let multiSrcNetNum := st.multiSrcNetNum + if sourcePins.length > 1 then 1 else 0
  let s ← device.readSources fuel strList sourcePins
  let (st, net) ← runAll (device.addSink fuel strList s) sinkPins
    ({ st with multiSrcNetNum := multiSrcNetNum }, ReadNet.init st.nets.length)
  some { st with
    nets := st.nets ++ [{ net with id := st.netNum, oriId := netIdx }]
    netNum := st.netNum + 1 }

/-- The body of the loop over the nets of the file. -/
def readNet (p : RawNet × Nat) (st : ReadState V) : Option (ReadState V) := do
  let (net, netIdx) := p
  if net.stubNodesSize = 0 then
    let preservedNodes ← device.parseNet strList st.preservedNodes net.toPhysNet
    let st := { st with preservedNodes := preservedNodes }
    if net.type = .signal ∧ net.stubs ≠ [] then
      let sourcePins ← extractSitePins net.sources
      let sinkPins ← extractSitePinsOneByOne net.stubs
      if sinkPins ≠ [] ∧ sourcePins ≠ [] then
        device.readSignalNet fuel strList netIdx sourcePins sinkPins st
      else some st
    else some st
  else none

def readNets (nodeType : V → NodeType) (nets : List RawNet) : Option (ReadState V) :=
  runAll (device.readNet fuel strList) nets.zipIdx (.init nodeType)

/-! ## Where the fixed paths lead -/

section Paths

variable {device} {fuel} {strList} {src sink n : V} {path : List V}

/-- The path from a source pin, wherever the pin is. -/
theorem isWalk_of_projectOutput
    (h : device.projectOutputNodeToIntNode fuel (some src) = some (some (n, path))) :
    device.IsWalk src n path := by
  obtain ⟨r, hrun, hr⟩ := Option.bind_eq_some_iff.1 h
  cases r with
  | none => cases hr
  | some r =>
    obtain ⟨m, prevMap⟩ := r
    let E (u v : V) : Prop := v ∈ device.getOutgoingNodes u
    have hstep : ∀ {s v q s' queued}, BackPointers.Pointed E src s.prevMap (v :: q) →
        device.visitOutput s v = .next s' queued →
        BackPointers.Pointed E src s'.prevMap (q ++ queued) := by
      intro s v q s' queued hs hvisit
      unfold visitOutput at hvisit
      split at hvisit
      · cases hvisit
        rw [List.append_nil]
        exact hs.mono fun u hu => List.mem_cons_of_mem _ hu
      · obtain ⟨-, hprev, rfl⟩ := visitDownhills_next hvisit
        rw [hprev, List.nil_append]
        exact (hs.visit fun c hc => hc).mono fun u hu => List.mem_cons_of_mem _ hu
    obtain ⟨s, v, q, hs, hstop⟩ := BackPointers.run_stop
      (fun (s : Layered V) q => BackPointers.Pointed E src s.prevMap q) hstep
      BackPointers.pointed_start hrun
    have hpointed : ∃ q, BackPointers.Pointed E src prevMap (m :: q) := by
      unfold visitOutput at hstop
      split at hstop
      · cases hstop
      · obtain ⟨passed, hsub, -, -, hr⟩ := visitDownhills_stop hstop
        cases hr
        exact ⟨_, hs.visit fun c hc => hsub hc⟩
    obtain ⟨q, hpointed⟩ := hpointed
    obtain ⟨p, hp, hout⟩ := Option.map_eq_some_iff.1 hr
    cases hout
    obtain ⟨hhead, hlast, -, hchain, -⟩ := hpointed.path List.mem_cons_self hp
    refine ⟨?_, ?_, ?_⟩
    · rw [List.head?_reverse, hlast]
    · rw [List.getLast?_reverse, hhead]
    · rw [List.isChain_reverse]
      exact hchain

variable (device) in
/-- A fixed path from a source pin. It stays outside the interconnect tiles if the pin is outside. -/
structure SourcePath (src n : V) (path : List V) : Prop where
  walk : device.IsWalk src n path
  outer : ¬device.IsInt src → ∀ v ∈ path, ¬device.IsInt v

theorem sourcePath_of_projectOutput
    (h : device.projectOutputNodeToIntNode fuel (some src) = some (some (n, path))) :
    device.SourcePath src n path :=
  ⟨isWalk_of_projectOutput h, fun hsrc => (outputPath_of_some hsrc h).outer⟩

/-- The path to a sink pin, against the edges that were followed. -/
theorem ends_of_projectInput
    (h : device.projectInputNodeToIntNode fuel (some sink) = some (n :: path)) :
    device.IsInt n ∧ (n :: path).getLast? = some sink ∧
      (n :: path).IsChain fun u v => u ∈ device.getIncomingNodes v := by
  unfold projectInputNodeToIntNode at h
  dsimp only at h
  split at h
  · rename_i m prevMap hsearch
    obtain ⟨hint, q, hpointed⟩ := pointed_of_searchInput hsearch
    obtain ⟨hhead, hlast, -, hchain, -⟩ := hpointed.path List.mem_cons_self h
    cases hhead
    exact ⟨hint, hlast, hchain.imp fun _ _ he => he.1⟩
  · cases h

end Paths

/-! ## What a sink pin adds -/

section Steps

variable {device} {fuel} {strList} {s : SourceNodes V} {sp : PhysSitePin}
  {st st' : ReadState V} {net net' : ReadNet V} {source : IndirectSource V} {conn : Nat}
  {v src sinkPin : V}

theorem setOnce_eq_some_iff {old new : Option V} :
    setOnce old v = some new ↔ (old = none ∨ old = some v) ∧ new = some v := by
  cases old with
  | none => simp [setOnce, eq_comm]
  | some u =>
    by_cases h : u = v
    · subst h
      simp [setOnce, eq_comm]
    · simp [setOnce, h]

theorem addIndirect_eq_some_iff : net.addIndirect conn source sinkPin = some net' ↔
    (net.indirectSource = none ∨ net.indirectSource = some source.node) ∧
    (net.indirectSourcePin = none ∨ net.indirectSourcePin = some source.pin) ∧
    net' = { net with
      indirectConns := net.indirectConns ++ [conn]
      indirectSource := some source.node
      indirectSourcePin := some source.pin
      indirectSinkPins := net.indirectSinkPins ++ [sinkPin] } := by
  constructor
  · intro h
    obtain ⟨indirectSource, hset, h⟩ := Option.bind_eq_some_iff.1 h
    obtain ⟨indirectSourcePin, hset', h⟩ := Option.bind_eq_some_iff.1 h
    cases h
    obtain ⟨hsource, rfl⟩ := setOnce_eq_some_iff.1 hset
    obtain ⟨hpin, rfl⟩ := setOnce_eq_some_iff.1 hset'
    exact ⟨hsource, hpin, rfl⟩
  · rintro ⟨hsource, hpin, rfl⟩
    unfold ReadNet.addIndirect
    rw [setOnce_eq_some_iff.2 ⟨hsource, rfl⟩, setOnce_eq_some_iff.2 ⟨hpin, rfl⟩]
    rfl

theorem addDirect_eq_some_iff : net.addDirect conn src sinkPin = some net' ↔
    (net.directSourcePin = none ∨ net.directSourcePin = some src) ∧
    net' = { net with
      directConns := net.directConns ++ [conn]
      directSourcePin := some src
      directSinkPins := net.directSinkPins ++ [sinkPin] } := by
  constructor
  · intro h
    obtain ⟨directSourcePin, hset, h⟩ := Option.bind_eq_some_iff.1 h
    cases h
    obtain ⟨hpin, rfl⟩ := setOnce_eq_some_iff.1 hset
    exact ⟨hpin, rfl⟩
  · rintro ⟨hpin, rfl⟩
    unfold ReadNet.addDirect
    rw [setOnce_eq_some_iff.2 ⟨hpin, rfl⟩]
    rfl

/-- The two kinds of connections. -/
theorem addSink_cases (h : device.addSink fuel strList s sp (st, net) = some (st', net')) :
    ∃ sinkPin path, device.pinNode strList sp = some sinkPin ∧
      device.projectInputNodeToIntNode fuel (some sinkPin) = some path ∧
      ((∃ source sink rest, s.real = some source ∧ path = sink :: rest ∧
          st' = st.addIndirect source sink path ∧
          net.addIndirect st.indirectConnNum source sinkPin = some net') ∨
        (s.srcNodeIdx ≠ sinkPin ∧ st' = st.addDirect s.srcNodeIdx sinkPin ∧
          net.addDirect st.directConnNum s.srcNodeIdx sinkPin = some net')) := by
  unfold addSink at h
  obtain ⟨sinkPin, hpin, h⟩ := Option.bind_eq_some_iff.1 h
  obtain ⟨path, hpath, h⟩ := Option.bind_eq_some_iff.1 h
  refine ⟨sinkPin, path, hpin, hpath, ?_⟩
  split at h
  · rename_i sink rest source hreal
    obtain ⟨net₁, hnet, h⟩ := Option.bind_eq_some_iff.1 h
    cases h
    exact .inl ⟨source, sink, rest, hreal, rfl, rfl, hnet⟩
  · split at h
    · cases h
    · rename_i hne
      obtain ⟨net₁, hnet, h⟩ := Option.bind_eq_some_iff.1 h
      cases h
      exact .inr ⟨hne, rfl, hnet⟩

end Steps

/-! ## What the reader guarantees -/

/-- A connection fits its net: the net has its source and its sink pin, and the fixed paths lead from
the source pin of the net to the source and from the sink, an interconnect node, to the sink pin. -/
structure Connects (net : ReadNet V) (c : ReadConnection V) : Prop where
  source : net.indirectSource = some c.source
  sourcePath : ∃ pin, net.indirectSourcePin = some pin ∧
    device.SourcePath pin c.source c.sourceToIntPath
  sink : c.intToSinkPath.head? = some c.sink ∧ device.IsInt c.sink
  sinkPath : c.intToSinkPath.IsChain fun u v => u ∈ device.getIncomingNodes v
  sinkPin : ∃ pin ∈ net.indirectSinkPins, c.intToSinkPath.getLast? = some pin

/-- A direct connection fits its net. -/
structure ConnectsDirectly (net : ReadNet V) (c : ReadConnection V) : Prop where
  source : net.directSourcePin = some c.source
  sink : c.sink ∈ net.directSinkPins
  ne : c.source ≠ c.sink

/-- The connections and the nets. -/
structure Tables (nets : List (ReadNet V)) (st : ReadState V) : Prop where
  connNum_eq : st.connNum = st.indirectConnections.length
  indirectConnNum_eq : st.indirectConnNum = st.indirectConnections.length
  directConnNum_eq : st.directConnNum = st.directConnections.length
  indirect : Filed ReadConnection.netId ReadNet.indirectConns device.Connects st.indirectConnections nets
  direct : Filed ReadConnection.netId ReadNet.directConns ConnectsDirectly st.directConnections nets
  ids : st.indirectConnections.map ReadConnection.id = List.range st.indirectConnections.length
  directIds : st.directConnections.map ReadConnection.id = List.range st.directConnections.length

/-- What the router takes for granted. -/
structure WellRead (st : ReadState V) : Prop extends device.Tables st.nets st where
  netNum_eq : st.netNum = st.nets.length
  netIds : st.nets.map ReadNet.id = List.range st.nets.length

section Guarantees

variable {device} {fuel} {strList} {s : SourceNodes V} {sp : PhysSitePin}
  {st st' : ReadState V} {net net' : ReadNet V} {source : IndirectSource V} {sink sinkPin : V}

/-- The path of the source that is used leads from its pin. -/
theorem sourcePath_real {sourcePins : List PhysSitePin}
    (h : device.readSources fuel strList sourcePins = some s) (hreal : s.real = some source) :
    device.SourcePath source.pin source.node source.path := by
  have hsound : (∀ node path, s.srcInt = some (node, path) →
      device.SourcePath s.srcNodeIdx node path) ∧
      ∀ alt node path, s.alt = some (alt, some (node, path)) → device.SourcePath alt node path := by
    obtain ⟨nodes, -, h⟩ := Option.bind_eq_some_iff.1 h
    split at h
    · rename_i src _
      obtain ⟨srcInt, hsrc, h⟩ := Option.bind_eq_some_iff.1 h
      cases h
      refine ⟨?_, fun _ _ _ halt => by cases halt⟩
      rintro node path rfl
      exact sourcePath_of_projectOutput hsrc
    · rename_i src alt _
      obtain ⟨srcInt, hsrc, h⟩ := Option.bind_eq_some_iff.1 h
      obtain ⟨altInt, halt, h⟩ := Option.bind_eq_some_iff.1 h
      cases h
      refine ⟨?_, ?_⟩
      · rintro node path rfl
        exact sourcePath_of_projectOutput hsrc
      · intro _ node path heq
        cases heq
        exact sourcePath_of_projectOutput halt
    · cases h
  unfold SourceNodes.real at hreal
  split at hreal
  · cases hreal
    exact hsound.1 _ _ ‹_›
  · cases hreal
    exact hsound.2 _ _ _ ‹_›
  · cases hreal

theorem Tables.addIndirect (h : device.Tables (st.nets ++ [net]) st) (hnum : st.netNum = st.nets.length)
    {rest : List V} (hwalk : device.SourcePath source.pin source.node source.path)
    (hpath : device.projectInputNodeToIntNode fuel (some sinkPin) = some (sink :: rest))
    (hnet : net.addIndirect st.indirectConnNum source sinkPin = some net') :
    device.Tables (st.nets ++ [net']) (st.addIndirect source sink (sink :: rest)) := by
  obtain ⟨hsource, hpin, rfl⟩ := addIndirect_eq_some_iff.1 hnet
  obtain ⟨hint, hlast, hchain⟩ := ends_of_projectInput hpath
  have hnew : (st.addIndirect source sink (sink :: rest)).indirectConnections.length =
      st.indirectConnections.length + 1 := List.length_append
  refine ⟨?_, ?_, h.directConnNum_eq, ?_, ?_, ?_, h.directIds⟩
  · rw [hnew, ← h.connNum_eq]
    rfl
  · rw [hnew, ← h.indirectConnNum_eq]
    rfl
  · refine h.indirect.addItem hnum ?_ (fun c hc => ?_) ?_
    · rw [← h.indirectConnNum_eq]
    · -- the source of a net and its pin were set by an earlier connection
      obtain ⟨pin, hp, hcpath⟩ := hc.sourcePath
      have hnode : some source.node = some c.source := by
        rw [hc.source] at hsource
        exact (hsource.resolve_left nofun).symm
      have heq : some source.pin = some pin := by
        rw [hp] at hpin
        exact (hpin.resolve_left nofun).symm
      obtain ⟨sp, hsp, hclast⟩ := hc.sinkPin
      exact ⟨hnode, ⟨pin, heq, hcpath⟩, hc.sink, hc.sinkPath, sp, List.mem_append_left _ hsp, hclast⟩
    · exact ⟨rfl, ⟨_, rfl, hwalk⟩, ⟨rfl, hint⟩, hchain, sinkPin,
        List.mem_append_right _ (List.mem_singleton_self _), hlast⟩
  · exact h.direct.setLast rfl fun c hc => ⟨hc.source, hc.sink, hc.ne⟩
  · rw [hnew, List.range_succ, ← h.ids, ← h.indirectConnNum_eq]
    exact List.map_append

theorem Tables.addDirect (h : device.Tables (st.nets ++ [net]) st) (hnum : st.netNum = st.nets.length)
    {src : V} (hne : src ≠ sinkPin) (hnet : net.addDirect st.directConnNum src sinkPin = some net') :
    device.Tables (st.nets ++ [net']) (st.addDirect src sinkPin) := by
  obtain ⟨hpin, rfl⟩ := addDirect_eq_some_iff.1 hnet
  have hnew : (st.addDirect src sinkPin).directConnections.length =
      st.directConnections.length + 1 := List.length_append
  refine ⟨h.connNum_eq, h.indirectConnNum_eq, ?_, ?_, ?_, h.ids, ?_⟩
  · rw [hnew, ← h.directConnNum_eq]
    rfl
  · exact h.indirect.setLast rfl fun c hc => ⟨hc.source, hc.sourcePath, hc.sink, hc.sinkPath, hc.sinkPin⟩
  · refine h.direct.addItem hnum ?_ (fun c hc => ?_) ?_
    · rw [← h.directConnNum_eq]
    · have hsrc : some src = some c.source := by
        rw [hc.source] at hpin
        exact (hpin.resolve_left nofun).symm
      exact ⟨hsrc, List.mem_append_left _ hc.sink, hc.ne⟩
    · exact ⟨rfl, List.mem_append_right _ (List.mem_singleton_self _), hne⟩
  · rw [hnew, List.range_succ, ← h.directIds, ← h.directConnNum_eq]
    exact List.map_append

/-- **A sink pin keeps the tables in order**, and appends no net. -/
theorem Tables.addSink {sourcePins : List PhysSitePin}
    (hs : device.readSources fuel strList sourcePins = some s)
    (h : device.Tables (st.nets ++ [net]) st) (hnum : st.netNum = st.nets.length)
    (hadd : device.addSink fuel strList s sp (st, net) = some (st', net')) :
    device.Tables (st'.nets ++ [net']) st' ∧ st'.nets = st.nets ∧ st'.netNum = st.netNum := by
  obtain ⟨sinkPin, path, -, hpath, hcases⟩ := addSink_cases hadd
  rcases hcases with ⟨source, sink, rest, hreal, rfl, rfl, hnet⟩ | ⟨hne, rfl, hnet⟩
  · exact ⟨h.addIndirect hnum (sourcePath_real hs hreal) hpath hnet, rfl, rfl⟩
  · exact ⟨h.addDirect hnum hne hnet, rfl, rfl⟩

theorem WellRead.readSignalNet (h : device.WellRead st) {netIdx : Nat}
    {sourcePins sinkPins : List PhysSitePin}
    (hread : device.readSignalNet fuel strList netIdx sourcePins sinkPins st = some st') :
    device.WellRead st' := by
  obtain ⟨s, hs, hread⟩ := Option.bind_eq_some_iff.1 hread
  obtain ⟨⟨st₁, net⟩, hrun, hread⟩ := Option.bind_eq_some_iff.1 hread
  cases hread
  -- the net that is read counts as the last one of the table
  have hinv := runAll_invariant
    (I := fun p : ReadState V × ReadNet V => device.Tables (p.1.nets ++ [p.2]) p.1 ∧
      p.1.nets = st.nets ∧ p.1.netNum = st.netNum)
    (fun sp _ p p' hp hadd => by
      obtain ⟨htables, hnets, hnum⟩ := hp
      obtain ⟨htables', hnets', hnum'⟩ :=
        htables.addSink hs (by rw [hnum, hnets, h.netNum_eq]) hadd
      exact ⟨htables', hnets'.trans hnets, hnum'.trans hnum⟩)
    ⟨⟨h.connNum_eq, h.indirectConnNum_eq, h.directConnNum_eq, h.indirect.addOwner rfl,
      h.direct.addOwner rfl, h.ids, h.directIds⟩, rfl, rfl⟩ hrun
  obtain ⟨htables, hnets, hnum⟩ := hinv
  dsimp only at htables hnets hnum
  have hlen : (st₁.nets ++ [{ net with id := st₁.netNum, oriId := netIdx }]).length =
      st.nets.length + 1 := by rw [hnets, List.length_append, List.length_singleton]
  refine ⟨⟨htables.connNum_eq, htables.indirectConnNum_eq, htables.directConnNum_eq,
    htables.indirect.setLast rfl fun c hc => ⟨hc.source, hc.sourcePath, hc.sink, hc.sinkPath, hc.sinkPin⟩,
    htables.direct.setLast rfl fun c hc => ⟨hc.source, hc.sink, hc.ne⟩, htables.ids,
    htables.directIds⟩, ?_, ?_⟩
  · show st₁.netNum + 1 = _
    rw [hlen, hnum, h.netNum_eq]
  · show (st₁.nets ++ [_]).map ReadNet.id = _
    rw [hlen, List.range_succ, List.map_append, hnets, h.netIds, ← h.netNum_eq, ← hnum]
    rfl

theorem WellRead.readNet (h : device.WellRead st) {p : RawNet × Nat}
    (hread : device.readNet fuel strList p st = some st') : device.WellRead st' := by
  unfold Device.readNet at hread
  dsimp only at hread
  split at hread
  · obtain ⟨preservedNodes, -, hread⟩ := Option.bind_eq_some_iff.1 hread
    have hmarked : device.WellRead { st with preservedNodes := preservedNodes } :=
      ⟨⟨h.connNum_eq, h.indirectConnNum_eq, h.directConnNum_eq, h.indirect, h.direct, h.ids,
        h.directIds⟩, h.netNum_eq, h.netIds⟩
    split at hread
    · obtain ⟨sourcePins, -, hread⟩ := Option.bind_eq_some_iff.1 hread
      obtain ⟨sinkPins, -, hread⟩ := Option.bind_eq_some_iff.1 hread
      split at hread
      · exact hmarked.readSignalNet hread
      · cases hread
        exact hmarked
    · cases hread
      exact hmarked
  · cases hread

/-- **What the reader returns is what the router takes for granted.** -/
theorem wellRead_of_readNets {nodeType : V → NodeType} {nets : List RawNet}
    (h : device.readNets fuel strList nodeType nets = some st) : device.WellRead st :=
  runAll_invariant (I := device.WellRead) (fun _ _ _ _ hs hread => hs.readNet hread)
    ⟨⟨rfl, rfl, rfl, .nil, .nil, rfl, rfl⟩, rfl, rfl⟩ h

/-- **Nets and connections refer to each other.** Ids are indices, a net lists the connections that
name it, once each, and a connection fits the net it names. -/
theorem readNets_consistent {nodeType : V → NodeType} {nets : List RawNet}
    (h : device.readNets fuel strList nodeType nets = some st) :
    (st.netNum = st.nets.length ∧ st.connNum = st.indirectConnections.length) ∧
    (∀ (n : Nat) (net : ReadNet V), st.nets[n]? = some net → net.id = n ∧
      (net.indirectConns.Nodup ∧ ∀ i, i ∈ net.indirectConns ↔
        ∃ c : ReadConnection V, st.indirectConnections[i]? = some c ∧ c.netId = n) ∧
      net.directConns.Nodup ∧ ∀ i, i ∈ net.directConns ↔
        ∃ c : ReadConnection V, st.directConnections[i]? = some c ∧ c.netId = n) ∧
    (∀ (i : Nat) (c : ReadConnection V), st.indirectConnections[i]? = some c →
      c.id = i ∧ ∃ net, st.nets[c.netId]? = some net ∧ device.Connects net c) ∧
    ∀ (i : Nat) (c : ReadConnection V), st.directConnections[i]? = some c →
      c.id = i ∧ ∃ net, st.nets[c.netId]? = some net ∧ ConnectsDirectly net c := by
  have hwell := wellRead_of_readNets h
  refine ⟨⟨hwell.netNum_eq, hwell.connNum_eq⟩, fun n net hnet => ?_, fun i c hc => ?_,
    fun i c hc => ?_⟩
  · have hmem := List.mem_of_getElem? hnet
    exact ⟨getElem?_of_map_eq_range hwell.netIds hnet,
      ⟨hwell.indirect.nodup hmem, fun i => hwell.indirect.mem_iff hnet⟩,
      hwell.direct.nodup hmem, fun i => hwell.direct.mem_iff hnet⟩
  · exact ⟨getElem?_of_map_eq_range hwell.ids hc, hwell.indirect.fits c (List.mem_of_getElem? hc)⟩
  · exact ⟨getElem?_of_map_eq_range hwell.directIds hc,
      hwell.direct.fits c (List.mem_of_getElem? hc)⟩

end Guarantees

/-! Two tiles with a source pin and a sink pin, each with an interconnect tile next to it: `pinTile`
twice. The pins of site `n` are the nodes `4 n` and `4 n + 3`. The file has three nets, of which the
first has no pins. -/

def pinSite : Device (Fin 8) where
  siteNameToIdx s := ["S", "T"].idxOf? s
  sites i := ⟨2 * i, 0, 0, 0⟩
  siteTypePinNameToIdx _ s := ["O", "I"].idxOf? s
  tileTypeSitePinToWireIdx _ _ pin := [0, 3].getD pin 0
  tileTypes := pinTile.tileTypes
  stringList _ := ""
  tileToNameIdx t := t
  tileToType t := if t = 0 ∨ t = 2 then 0 else intTile
  tileWireToNode t i := (([[0, 1, 2, 3], [2], [4, 5, 6, 7], [6]].getD t [])[i]?).map idx
  nodeToWires v :=
    if v.val % 4 = 2 then [⟨2 * (v / 4) + 1, intTile, 0⟩, ⟨2 * (v / 4), 0, 2⟩]
    else [⟨2 * (v / 4), 0, v % 4⟩]
  beginTileId v := if v.val % 4 = 2 then 2 * (v / 4) + 1 else 2 * (v / 4)
  nullTile_pips := fun _ _ => rfl
  wire_type := by
    intro v w hw
    revert w
    revert v
    decide
  wire_lt := by
    intro v w hw
    revert w
    revert v
    decide
  begin_eq := by decide
  wire_of_node := by
    intro t i v h
    match t, i with
    | 0, 0 => cases h; decide
    | 0, 1 => cases h; decide
    | 0, 2 => cases h; decide
    | 0, 3 => cases h; decide
    | 0, i + 4 => cases h
    | 1, 0 => cases h; decide
    | 1, i + 1 => cases h
    | 2, 0 => cases h; decide
    | 2, 1 => cases h; decide
    | 2, 2 => cases h; decide
    | 2, 3 => cases h; decide
    | 2, i + 4 => cases h
    | 3, 0 => cases h; decide
    | 3, i + 1 => cases h
    | t + 4, i => cases h
  node_of_wire := by
    intro v w hw
    revert w
    revert v
    decide

def pinSiteStrList : List String := ["S", "T", "O", "I"]

/-- The net from `O` to `I` of a site. -/
def pinSiteNet (site : Nat) : RawNet :=
  ⟨⟨[.node (.belPin ⟨site, 0, 2⟩) [.node (.sitePin ⟨site, 2⟩) []]],
    [.node (.sitePin ⟨site, 3⟩) []], .signal⟩, 0⟩

def pinSiteNets : List RawNet := [⟨⟨[], [], .signal⟩, 0⟩, pinSiteNet 0, pinSiteNet 1]

/-- A connection with its fixed paths. -/
def pinSiteConns : List (Nat × (Fin 8 × Fin 8) × List (Fin 8) × List (Fin 8)) :=
  [(0, (idx 1, idx 2), [idx 0, idx 1], [idx 2, idx 3]),
    (1, (idx 5, idx 6), [idx 4, idx 5], [idx 6, idx 7])]

theorem exists_readNets_pinSite :
    ∃ st ∈ pinSite.readNets 8 pinSiteStrList (fun _ => .wire) pinSiteNets,
      st.nets.map (fun n => (n.indirectConns, n.directConns)) = [([0], []), ([1], [])] ∧
      st.indirectConnections.map (fun c => (c.netId, (c.source, c.sink), c.sourceToIntPath,
        c.intToSinkPath)) = pinSiteConns ∧
      st.directConnections = [] := by
  decide +kernel

theorem readNets_consistent_pinSite :
    ∃ st, pinSite.readNets 8 pinSiteStrList (fun _ => .wire) pinSiteNets = some st ∧
      ∃ (net : ReadNet (Fin 8)) (c : ReadConnection (Fin 8)), st.nets[1]? = some net ∧
        st.indirectConnections[1]? = some c ∧ c.netId = 1 ∧
        1 ∈ net.indirectConns ∧ 0 ∉ net.indirectConns ∧ pinSite.Connects net c := by
  obtain ⟨st, hst, -, hconns, -⟩ := exists_readNets_pinSite
  obtain ⟨-, hlists, hfits, -⟩ := readNets_consistent hst
  have hnetIds : st.indirectConnections.map ReadConnection.netId = [0, 1] := by
    have h := congrArg (List.map Prod.fst) hconns
    rwa [List.map_map] at h
  have hget : ∀ i < 2, ∃ c, st.indirectConnections[i]? = some c ∧ c.netId = i := by
    intro i hi
    refine Option.map_eq_some_iff.1 ?_
    rw [← List.getElem?_map, hnetIds]
    revert i
    decide
  obtain ⟨c₀, hc₀, hnet₀⟩ := hget 0 (by decide)
  obtain ⟨c, hc, hnet⟩ := hget 1 (by decide)
  obtain ⟨-, net, hn, hjoin⟩ := hfits 1 c hc
  rw [hnet] at hn
  obtain ⟨-, ⟨-, hmem⟩, -⟩ := hlists 1 net hn
  refine ⟨st, hst, net, c, hn, hc, hnet, (hmem 1).2 ⟨c, hc, hnet⟩, fun h => ?_, hjoin⟩
  obtain ⟨c', hc', hnet'⟩ := (hmem 0).1 h
  rw [hc₀] at hc'
  cases hc'
  omega


/-! ## The nets that are read -/

end Device

/-- Some segment of the branch is a site pin. -/
def RouteBranch.hasSitePin (b : RouteBranch) : Bool := b.labels.any fun s => s.sitePin?.isSome

/-- A signal net with a source pin and a sink pin. -/
def RawNet.routable (net : RawNet) : Bool :=
  net.type = .signal && net.sources.any RouteBranch.hasSitePin && net.stubs.any RouteBranch.hasSitePin

section Pins

variable {branches : List RouteBranch} {pins : List PhysSitePin}

theorem RouteSegment.sitePin?_eq_some_iff {s : RouteSegment} {sp : PhysSitePin} :
    s.sitePin? = some sp ↔ s = .sitePin sp := by
  cases s <;> simp [RouteSegment.sitePin?]

theorem RouteBranch.hasSitePin_iff {b : RouteBranch} :
    RouteBranch.hasSitePin b = true ↔ ∃ sp, .sitePin sp ∈ b.labels := by
  simp only [RouteBranch.hasSitePin, List.any_eq_true, Option.isSome_iff_exists,
    RouteSegment.sitePin?_eq_some_iff]
  constructor
  · rintro ⟨s, hs, sp, rfl⟩
    exact ⟨sp, hs⟩
  · rintro ⟨sp, hs⟩
    exact ⟨_, hs, sp, rfl⟩

theorem extractSitePins_ne_nil_iff (h : extractSitePins branches = some pins) :
    pins ≠ [] ↔ branches.any RouteBranch.hasSitePin = true := by
  obtain ⟨pins', hpins', hmem⟩ := extractSitePins_spec branches
  rw [h] at hpins'
  cases hpins'
  rw [List.any_eq_true]
  constructor
  · intro hne
    obtain ⟨sp, hsp⟩ := List.exists_mem_of_ne_nil _ hne
    obtain ⟨b, hb, hlabel⟩ := (hmem sp).1 hsp
    exact ⟨b, hb, RouteBranch.hasSitePin_iff.2 ⟨sp, hlabel⟩⟩
  · rintro ⟨b, hb, hpin⟩
    obtain ⟨sp, hlabel⟩ := RouteBranch.hasSitePin_iff.1 hpin
    exact List.ne_nil_of_mem ((hmem sp).2 ⟨b, hb, hlabel⟩)

theorem exists_extractSitePinsOneByOne (branches : List RouteBranch) :
    ∃ pins, extractSitePinsOneByOne branches = some pins := by
  have htrees : ∃ trees, (branches.mapM fun b => segmentsOf [b]) = some trees := by
    induction branches with
    | nil => exact ⟨[], List.mapM_nil⟩
    | cons b branches ih =>
      obtain ⟨trees, htrees⟩ := ih
      obtain ⟨segments, hsegments, -⟩ := segmentsOf_spec [b]
      refine ⟨segments :: trees, ?_⟩
      rw [List.mapM_cons, hsegments, htrees]
      rfl
  obtain ⟨trees, htrees⟩ := htrees
  exact ⟨_, Option.map_eq_some_iff.2 ⟨trees, htrees, rfl⟩⟩

/-- One pin for every branch that has one. -/
theorem length_extractSitePinsOneByOne (h : extractSitePinsOneByOne branches = some pins) :
    pins.length = branches.countP RouteBranch.hasSitePin := by
  obtain ⟨trees, htrees, rfl⟩ := Option.map_eq_some_iff.1 h
  clear h
  induction branches generalizing trees with
  | nil =>
    rw [List.mapM_nil] at htrees
    cases htrees
    rfl
  | cons b branches ih =>
    rw [List.mapM_cons] at htrees
    obtain ⟨segments, hsegments, htrees⟩ := Option.bind_eq_some_iff.1 htrees
    obtain ⟨rest, hrest, htrees⟩ := Option.bind_eq_some_iff.1 htrees
    cases htrees
    obtain ⟨segments', hsegments', hmem⟩ := segmentsOf_spec [b]
    rw [hsegments] at hsegments'
    cases hsegments'
    have hfirst : (segments.findSome? RouteSegment.sitePin?).isSome = RouteBranch.hasSitePin b := by
      rw [Bool.eq_iff_iff, RouteBranch.hasSitePin, List.any_eq_true, List.findSome?_isSome_iff]
      refine exists_congr fun s => and_congr_left fun _ => ?_
      rw [hmem]
      simp only [List.mem_singleton, exists_eq_left]
    rw [List.countP_cons, ← ih rest hrest, ← hfirst, List.filterMap_cons]
    cases segments.findSome? RouteSegment.sitePin? <;> simp

end Pins

namespace Device

variable {V : Type} [DecidableEq V] {device : Device V} {fuel : Nat} {strList : List String}
  {st st' : ReadState V} {net net' : ReadNet V} {s : SourceNodes V}

/-- The connections of a net, of both kinds. -/
def numConnections (net : ReadNet V) : Nat := net.indirectConns.length + net.directConns.length

theorem addSink_numConnections {sp : PhysSitePin}
    (h : device.addSink fuel strList s sp (st, net) = some (st', net')) :
    numConnections net' = numConnections net + 1 := by
  obtain ⟨sinkPin, path, -, -, hcases⟩ := addSink_cases h
  rcases hcases with ⟨source, sink, rest, -, -, -, hnet⟩ | ⟨-, -, hnet⟩
  · obtain ⟨-, -, rfl⟩ := addIndirect_eq_some_iff.1 hnet
    simp only [numConnections, List.length_append, List.length_singleton]
    omega
  · obtain ⟨-, rfl⟩ := addDirect_eq_some_iff.1 hnet
    simp only [numConnections, List.length_append, List.length_singleton]
    omega

theorem addSink_nets {sp : PhysSitePin}
    (h : device.addSink fuel strList s sp (st, net) = some (st', net')) : st'.nets = st.nets := by
  obtain ⟨sinkPin, path, -, -, hcases⟩ := addSink_cases h
  rcases hcases with ⟨source, sink, rest, -, -, rfl, -⟩ | ⟨-, rfl, -⟩ <;> rfl

/-- What is counted of a net: where it comes from and the number of its connections. -/
def summary (net : ReadNet V) : Nat × Nat := (net.oriId, numConnections net)

theorem readSignalNet_summary {netIdx : Nat} {sourcePins sinkPins : List PhysSitePin}
    (h : device.readSignalNet fuel strList netIdx sourcePins sinkPins st = some st') :
    st'.nets.map summary = st.nets.map summary ++ [(netIdx, sinkPins.length)] := by
  obtain ⟨s, -, h⟩ := Option.bind_eq_some_iff.1 h
  obtain ⟨⟨st₁, net⟩, hrun, h⟩ := Option.bind_eq_some_iff.1 h
  cases h
  have hinv := runAll_reached
    (I := fun pins (p : ReadState V × ReadNet V) => p.1.nets = st.nets ∧
      numConnections p.2 = pins.length)
    (fun pins sp post p p' _ _ hp hadd => by
      refine ⟨(addSink_nets hadd).trans hp.1, ?_⟩
      rw [addSink_numConnections hadd, hp.2, List.length_append, List.length_singleton])
    ⟨rfl, rfl⟩ hrun
  obtain ⟨hnets, hnum⟩ := hinv
  show (st₁.nets ++ [_]).map summary = _
  rw [List.map_append, hnets, ← hnum]
  rfl

theorem routable_iff {net : RawNet} {sourcePins sinkPins : List PhysSitePin}
    (hsource : extractSitePins net.sources = some sourcePins)
    (hsink : extractSitePinsOneByOne net.stubs = some sinkPins) :
    net.routable = true ↔ net.type = .signal ∧ sinkPins ≠ [] ∧ sourcePins ≠ [] := by
  have hstubs : sinkPins ≠ [] ↔ net.stubs.any RouteBranch.hasSitePin = true := by
    rw [← List.length_pos_iff_ne_nil, length_extractSitePinsOneByOne hsink, List.countP_pos_iff,
      List.any_eq_true]
  rw [hstubs, extractSitePins_ne_nil_iff hsource]
  simp only [RawNet.routable, Bool.and_eq_true, decide_eq_true_eq]
  tauto

/-- A net of the file, with its pins. -/
theorem readNet_eq {net : RawNet} {sourcePins sinkPins : List PhysSitePin}
    (hsource : extractSitePins net.sources = some sourcePins)
    (hsink : extractSitePinsOneByOne net.stubs = some sinkPins) (netIdx : Nat) (st : ReadState V) :
    device.readNet fuel strList (net, netIdx) st =
      if net.stubNodesSize = 0 then
        (device.parseNet strList st.preservedNodes net.toPhysNet).bind fun preservedNodes =>
          if net.routable then device.readSignalNet fuel strList netIdx sourcePins sinkPins
            { st with preservedNodes := preservedNodes }
          else some { st with preservedNodes := preservedNodes }
      else none := by
  have hroutable := routable_iff hsource hsink
  unfold readNet
  dsimp only
  refine if_congr Iff.rfl (Option.bind_congr fun preservedNodes _ => ?_) rfl
  by_cases hsignal : net.type = .signal ∧ net.stubs ≠ []
  · rw [if_pos hsignal, hsource, hsink]
    refine if_congr ?_ rfl rfl
    rw [hroutable, and_iff_right hsignal.1]
  · have hnot : ¬ net.routable = true := by
      rw [hroutable]
      rintro ⟨htype, hpins, -⟩
      refine hsignal ⟨htype, fun hnil => hpins ?_⟩
      rw [hnil] at hsink
      cases hsink
      rfl
    rw [if_neg hsignal, if_neg hnot]

/-- **The nets are the routable nets of the file, in its order**, each with one connection for every
stub that has a site pin. -/
theorem readNets_summary {nodeType : V → NodeType} {nets : List RawNet}
    (h : device.readNets fuel strList nodeType nets = some st) :
    st.nets.map summary = (nets.zipIdx.filter fun p => p.1.routable).map fun p =>
      (p.2, p.1.stubs.countP RouteBranch.hasSitePin) := by
  refine runAll_reached (I := fun pre (st : ReadState V) => st.nets.map summary =
    (pre.filter fun p : RawNet × Nat => p.1.routable).map fun p =>
      (p.2, p.1.stubs.countP RouteBranch.hasSitePin)) ?_ rfl h
  rintro pre ⟨net, netIdx⟩ post u v - - hpre hread
  obtain ⟨sourcePins, hsource, -⟩ := extractSitePins_spec net.sources
  obtain ⟨sinkPins, hsink⟩ := exists_extractSitePinsOneByOne net.stubs
  rw [readNet_eq hsource hsink] at hread
  rw [List.filter_append, List.map_append, ← hpre]
  split at hread
  · obtain ⟨preservedNodes, -, hread⟩ := Option.bind_eq_some_iff.1 hread
    split at hread
    · rename_i hroutable
      rw [readSignalNet_summary hread, length_extractSitePinsOneByOne hsink]
      simp [hroutable]
    · rename_i hroutable
      cases hread
      simp [hroutable]
  · cases hread

theorem readNets_summary_pinSite :
    ∃ st, pinSite.readNets 8 pinSiteStrList (fun _ => .wire) pinSiteNets = some st ∧
      st.nets.map summary = [(1, 1), (2, 1)] := by
  obtain ⟨st, hst, -⟩ := exists_readNets_pinSite
  exact ⟨st, hst, (readNets_summary hst).trans (by decide +kernel)⟩

/-! ## The pins of a net -/

/-- Every pin of a net is the pin of one of its connections. -/
structure PinsListed (st : ReadState V) (net : ReadNet V) : Prop where
  sourcePin : net.indirectConns = [] → net.indirectSourcePin = none
  sinkPins : ∀ t ∈ net.indirectSinkPins, ∃ i ∈ net.indirectConns, ∃ c,
    st.indirectConnections[i]? = some c ∧ c.intToSinkPath.getLast? = some t
  directSinkPins : ∀ t ∈ net.directSinkPins, ∃ i ∈ net.directConns, ∃ c,
    st.directConnections[i]? = some c ∧ c.sink = t

omit [DecidableEq V] in
theorem PinsListed.mono (h : PinsListed st net)
    (hindirect : st.indirectConnections <+: st'.indirectConnections)
    (hdirect : st.directConnections <+: st'.directConnections) : PinsListed st' net where
  sourcePin := h.sourcePin
  sinkPins t ht := by
    obtain ⟨i, hi, c, hc, hlast⟩ := h.sinkPins t ht
    exact ⟨i, hi, c, getElem?_of_prefix hindirect hc, hlast⟩
  directSinkPins t ht := by
    obtain ⟨i, hi, c, hc, hsink⟩ := h.directSinkPins t ht
    exact ⟨i, hi, c, getElem?_of_prefix hdirect hc, hsink⟩

omit [DecidableEq V] in
theorem PinsListed.init (st : ReadState V) (id : Nat) : PinsListed st (ReadNet.init id) :=
  ⟨fun _ => rfl, fun _ ht => absurd ht List.not_mem_nil, fun _ ht => absurd ht List.not_mem_nil⟩

/-- The counters are the sizes of the tables, and the nets list the pins of their connections. -/
structure Listing (nets : List (ReadNet V)) (st : ReadState V) : Prop where
  indirectConnNum_eq : st.indirectConnNum = st.indirectConnections.length
  directConnNum_eq : st.directConnNum = st.directConnections.length
  listed : ∀ net ∈ nets, PinsListed st net

theorem Listing.addSink {sp : PhysSitePin} (h : Listing (st.nets ++ [net]) st)
    (hadd : device.addSink fuel strList s sp (st, net) = some (st', net')) :
    Listing (st'.nets ++ [net']) st' := by
  obtain ⟨hold, hnet⟩ := List.forall_mem_append.1 h.listed
  have hlast := hnet net List.mem_cons_self
  obtain ⟨sinkPin, path, -, hpath, hcases⟩ := addSink_cases hadd
  rcases hcases with ⟨source, sink, rest, -, rfl, rfl, hadded⟩ | ⟨-, rfl, hadded⟩
  · obtain ⟨-, -, rfl⟩ := addIndirect_eq_some_iff.1 hadded
    obtain ⟨-, hend, -⟩ := ends_of_projectInput hpath
    have hgrow : ∀ {net : ReadNet V}, PinsListed st net →
        PinsListed (st.addIndirect source sink (sink :: rest)) net := fun hn =>
      hn.mono (List.prefix_append _ _) (List.prefix_refl _)
    refine ⟨?_, h.directConnNum_eq, List.forall_mem_append.2 ⟨fun m hm => hgrow (hold m hm),
      List.forall_mem_singleton.2 ⟨fun hnil => ?_, fun t ht => ?_, (hgrow hlast).directSinkPins⟩⟩⟩
    · show st.indirectConnNum + 1 = (_ ++ [_]).length
      rw [h.indirectConnNum_eq, List.length_append, List.length_singleton]
    · exact absurd hnil (List.append_ne_nil_of_right_ne_nil _ (List.cons_ne_nil _ _))
    · rcases List.mem_append.1 ht with ht | ht
      · obtain ⟨i, hi, c, hc, hlast⟩ := (hgrow hlast).sinkPins t ht
        exact ⟨i, List.mem_append_left _ hi, c, hc, hlast⟩
      · rw [List.mem_singleton.1 ht, h.indirectConnNum_eq]
        exact ⟨_, List.mem_append_right _ List.mem_cons_self, _, List.getElem?_concat_length, hend⟩
  · obtain ⟨-, rfl⟩ := addDirect_eq_some_iff.1 hadded
    have hgrow : ∀ {net : ReadNet V}, PinsListed st net →
        PinsListed (st.addDirect s.srcNodeIdx sinkPin) net := fun hn =>
      hn.mono (List.prefix_refl _) (List.prefix_append _ _)
    refine ⟨h.indirectConnNum_eq, ?_, List.forall_mem_append.2 ⟨fun m hm => hgrow (hold m hm),
      List.forall_mem_singleton.2 ⟨hlast.sourcePin, (hgrow hlast).sinkPins, fun t ht => ?_⟩⟩⟩
    · show st.directConnNum + 1 = (_ ++ [_]).length
      rw [h.directConnNum_eq, List.length_append, List.length_singleton]
    · rcases List.mem_append.1 ht with ht | ht
      · obtain ⟨i, hi, c, hc, hsink⟩ := (hgrow hlast).directSinkPins t ht
        exact ⟨i, List.mem_append_left _ hi, c, hc, hsink⟩
      · rw [List.mem_singleton.1 ht, h.directConnNum_eq]
        exact ⟨_, List.mem_append_right _ List.mem_cons_self, _, List.getElem?_concat_length, rfl⟩

theorem Listing.readSignalNet (h : Listing st.nets st) {netIdx : Nat}
    {sourcePins sinkPins : List PhysSitePin}
    (hread : device.readSignalNet fuel strList netIdx sourcePins sinkPins st = some st') :
    Listing st'.nets st' := by
  obtain ⟨s, -, hread⟩ := Option.bind_eq_some_iff.1 hread
  obtain ⟨⟨st₁, net⟩, hrun, hread⟩ := Option.bind_eq_some_iff.1 hread
  cases hread
  have hinv := runAll_invariant
    (I := fun p : ReadState V × ReadNet V => Listing (p.1.nets ++ [p.2]) p.1)
    (fun sp _ p p' hp hadd => hp.addSink hadd)
    ⟨h.indirectConnNum_eq, h.directConnNum_eq, List.forall_mem_append.2
      ⟨fun m hm => (h.listed m hm).mono (List.prefix_refl _) (List.prefix_refl _),
        List.forall_mem_singleton.2 (.init _ _)⟩⟩ hrun
  obtain ⟨hold, hnet⟩ := List.forall_mem_append.1 hinv.listed
  have hlast := hnet net List.mem_cons_self
  refine ⟨hinv.indirectConnNum_eq, hinv.directConnNum_eq, List.forall_mem_append.2
    ⟨fun m hm => (hold m hm).mono (List.prefix_refl _) (List.prefix_refl _),
      List.forall_mem_singleton.2 ⟨hlast.sourcePin, hlast.sinkPins, hlast.directSinkPins⟩⟩⟩

/-- **A net lists no pin without a connection.** -/
theorem pinsListed_of_readNets {nodeType : V → NodeType} {nets : List RawNet}
    (h : device.readNets fuel strList nodeType nets = some st) :
    ∀ net ∈ st.nets, PinsListed st net := by
  refine (runAll_invariant (I := fun st : ReadState V => Listing st.nets st) ?_
    ⟨rfl, rfl, fun _ hnet => absurd hnet List.not_mem_nil⟩ h).listed
  rintro ⟨net, netIdx⟩ - st st' hst hread
  obtain ⟨sourcePins, hsource, -⟩ := extractSitePins_spec net.sources
  obtain ⟨sinkPins, hsink⟩ := exists_extractSitePinsOneByOne net.stubs
  rw [readNet_eq hsource hsink] at hread
  obtain ⟨-, hread⟩ := Option.ite_none_right_eq_some.1 hread
  obtain ⟨preservedNodes, -, hread⟩ := Option.bind_eq_some_iff.1 hread
  have hmarked : Listing st.nets { st with preservedNodes := preservedNodes } :=
    ⟨hst.indirectConnNum_eq, hst.directConnNum_eq, fun m hm =>
      (hst.listed m hm).mono (List.prefix_refl _) (List.prefix_refl _)⟩
  split at hread
  · exact Listing.readSignalNet hmarked hread
  · cases hread
    exact hmarked

/-! ## When the reader returns -/

/-- The sources of a net are found, and each of its sink pins makes a connection: an indirect one, or
a direct one that does not end where it starts. -/
def Readable (device : Device V) (fuel : Nat) (strList : List String)
    (sourcePins sinkPins : List PhysSitePin) : Prop :=
  ∃ s, device.readSources fuel strList sourcePins = some s ∧ ∀ sp ∈ sinkPins, ∃ sinkPin path,
    device.pinNode strList sp = some sinkPin ∧
    device.projectInputNodeToIntNode fuel (some sinkPin) = some path ∧
    (path ≠ [] ∧ s.real ≠ none ∨ s.srcNodeIdx ≠ sinkPin)

/-- The source pins of a net were set to those that are found, if they were set. -/
structure SetFrom (s : SourceNodes V) (net : ReadNet V) : Prop where
  indirect : ∀ source, s.real = some source →
    (net.indirectSource = none ∨ net.indirectSource = some source.node) ∧
      (net.indirectSourcePin = none ∨ net.indirectSourcePin = some source.pin)
  direct : net.directSourcePin = none ∨ net.directSourcePin = some s.srcNodeIdx

theorem SetFrom.addSink {sp : PhysSitePin} (h : SetFrom s net)
    (hadd : device.addSink fuel strList s sp (st, net) = some (st', net')) : SetFrom s net' := by
  obtain ⟨sinkPin, path, -, -, hcases⟩ := addSink_cases hadd
  rcases hcases with ⟨source, sink, rest, hreal, -, -, hnet⟩ | ⟨-, -, hnet⟩
  · obtain ⟨-, -, rfl⟩ := addIndirect_eq_some_iff.1 hnet
    refine ⟨fun source' hreal' => ?_, h.direct⟩
    rw [hreal] at hreal'
    cases hreal'
    exact ⟨.inr rfl, .inr rfl⟩
  · obtain ⟨-, rfl⟩ := addDirect_eq_some_iff.1 hnet
    exact ⟨h.indirect, .inr rfl⟩

/-- **The sources of a net are never found to differ**: whether a sink pin can be added depends on the
pin alone. -/
theorem SetFrom.exists_addSink_iff {sp : PhysSitePin} (h : SetFrom s net) :
    (∃ p, device.addSink fuel strList s sp (st, net) = some p) ↔ ∃ sinkPin path,
      device.pinNode strList sp = some sinkPin ∧
      device.projectInputNodeToIntNode fuel (some sinkPin) = some path ∧
      (path ≠ [] ∧ s.real ≠ none ∨ s.srcNodeIdx ≠ sinkPin) := by
  constructor
  · rintro ⟨⟨st', net'⟩, hadd⟩
    obtain ⟨sinkPin, path, hpin, hpath, hcases⟩ := addSink_cases hadd
    refine ⟨sinkPin, path, hpin, hpath, ?_⟩
    rcases hcases with ⟨source, sink, rest, hreal, rfl, -⟩ | ⟨hne, -⟩
    · exact .inl ⟨List.cons_ne_nil _ _, by rw [hreal]; exact Option.some_ne_none _⟩
    · exact .inr hne
  · rintro ⟨sinkPin, path, hpin, hpath, hkind⟩
    unfold Device.addSink
    rw [hpin, Option.bind_eq_bind, Option.bind_some, hpath, Option.bind_eq_bind, Option.bind_some]
    split
    · rename_i source hreal
      obtain ⟨hnode, hpin⟩ := h.indirect source hreal
      rw [addIndirect_eq_some_iff.2 ⟨hnode, hpin, rfl⟩]
      exact ⟨_, rfl⟩
    · rename_i hnot
      have hne : s.srcNodeIdx ≠ sinkPin := by
        refine hkind.resolve_left ?_
        rintro ⟨hpath, hreal⟩
        obtain ⟨sink, rest, rfl⟩ := List.exists_cons_of_ne_nil hpath
        obtain ⟨source, hsource⟩ := Option.ne_none_iff_exists'.1 hreal
        exact hnot sink rest source rfl hsource
      rw [if_neg hne, addDirect_eq_some_iff.2 ⟨h.direct, rfl⟩]
      exact ⟨_, rfl⟩

theorem exists_readSignalNet_iff {netIdx : Nat} {sourcePins sinkPins : List PhysSitePin} :
    (∃ st', device.readSignalNet fuel strList netIdx sourcePins sinkPins st = some st') ↔
      device.Readable fuel strList sourcePins sinkPins := by
  have hrun : ∀ s (st : ReadState V),
      (∃ p, runAll (device.addSink fuel strList s) sinkPins (st, ReadNet.init st.nets.length) = some p)
        ↔ ∀ sp ∈ sinkPins, ∃ sinkPin path, device.pinNode strList sp = some sinkPin ∧
          device.projectInputNodeToIntNode fuel (some sinkPin) = some path ∧
          (path ≠ [] ∧ s.real ≠ none ∨ s.srcNodeIdx ≠ sinkPin) := by
    intro s st
    refine runAll_isSome_iff (I := fun p : ReadState V × ReadNet V => SetFrom s p.2) ?_ ?_ ?_
    · exact fun _ _ _ _ hp hadd => SetFrom.addSink hp hadd
    · exact fun _ _ _ hp => SetFrom.exists_addSink_iff hp
    · exact ⟨fun _ _ => ⟨.inl rfl, .inl rfl⟩, .inl rfl⟩
  constructor
  · rintro ⟨st', h⟩
    obtain ⟨s, hs, h⟩ := Option.bind_eq_some_iff.1 h
    obtain ⟨p, hp, -⟩ := Option.bind_eq_some_iff.1 h
    exact ⟨s, hs, (hrun s _).1 ⟨p, hp⟩⟩
  · rintro ⟨s, hs, hall⟩
    obtain ⟨p, hp⟩ := (hrun s { st with
      multiSrcNetNum := st.multiSrcNetNum + if sourcePins.length > 1 then 1 else 0 }).2 hall
    refine ⟨_, Option.bind_eq_some_iff.2 ⟨s, hs, Option.bind_eq_some_iff.2 ⟨p, hp, rfl⟩⟩⟩

/-- Whether the nodes that a net preserves are found does not depend on what is preserved already. -/
theorem exists_parseNet_iff (physNet : PhysNet) (marks marks' : V → Bool) :
    (∃ out, device.parseNet strList marks physNet = some out) ↔
      ∃ out, device.parseNet strList marks' physNet = some out := by
  have hpins : ∀ pins marks, (∃ out, device.preservePins strList pins marks = some out) ↔
      ∀ sp ∈ pins, ∃ v, device.pinNode strList sp = some v := by
    intro pins marks
    refine foldlM_isSome_iff (fun s a => ?_) pins marks
    simp [Option.bind_eq_some_iff]
  have hpips : ∀ pips marks, (∃ out, device.preservePips strList pips marks = some out) ↔
      ∀ p ∈ pips, (∃ v, device.wireNode strList p.tile p.wire0 = some v) ∧
        ∃ v, device.wireNode strList p.tile p.wire1 = some v := by
    intro pips marks
    refine foldlM_isSome_iff (fun s a => ?_) pips marks
    simp [Option.bind_eq_some_iff]
  obtain ⟨sourcePins, hsource, -⟩ := extractSitePins_spec physNet.sources
  unfold parseNet
  rw [hsource]
  simp only [Option.bind_eq_bind, Option.bind_some]
  obtain ⟨sinkPins, hsink⟩ := exists_extractSitePinsOneByOne physNet.stubs
  obtain ⟨segments, hsegments, -⟩ := segmentsOf_spec physNet.sources
  simp only [hsink, hsegments, Option.bind_some]
  split_ifs
  · rw [hpins, hpins]
  · exact iff_of_true ⟨_, rfl⟩ ⟨_, rfl⟩
  · cases sourcePins.mapM fun sp => strList[sp.pin]? with
    | none => exact Iff.rfl
    | some pinNames =>
      simp only [Option.bind_some]
      split_ifs
      · exact iff_of_true ⟨_, rfl⟩ ⟨_, rfl⟩
      · rw [exists_bind_iff (hpips _), exists_bind_iff (hpips _), hpins, hpins]

/-- **When the reader returns.** Every net has to be readable by itself: it has no stub nodes, the
nodes it preserves are found, and its pins make connections if it is to be routed. The nets before it
do not matter. -/
theorem exists_readNets_iff (nodeType : V → NodeType) (nets : List RawNet) :
    (∃ st, device.readNets fuel strList nodeType nets = some st) ↔ ∀ net ∈ nets,
      net.stubNodesSize = 0 ∧
      (∃ marks, device.parseNet strList (fun _ => false) net.toPhysNet = some marks) ∧
      (net.routable = true → ∀ sourcePins sinkPins,
        extractSitePins net.sources = some sourcePins →
        extractSitePinsOneByOne net.stubs = some sinkPins →
        device.Readable fuel strList sourcePins sinkPins) := by
  have hstep : ∀ p ∈ nets.zipIdx, ∀ st : ReadState V,
      (∃ st', device.readNet fuel strList p st = some st') ↔ p.1.stubNodesSize = 0 ∧
      (∃ marks, device.parseNet strList (fun _ => false) p.1.toPhysNet = some marks) ∧
      (p.1.routable = true → ∀ sourcePins sinkPins,
        extractSitePins p.1.sources = some sourcePins →
        extractSitePinsOneByOne p.1.stubs = some sinkPins →
        device.Readable fuel strList sourcePins sinkPins) := by
    rintro ⟨net, netIdx⟩ - st
    obtain ⟨sourcePins, hsource, -⟩ := extractSitePins_spec net.sources
    obtain ⟨sinkPins, hsink⟩ := exists_extractSitePinsOneByOne net.stubs
    rw [readNet_eq hsource hsink, exists_parseNet_iff net.toPhysNet _ st.preservedNodes]
    split
    · rename_i hstubs
      rw [and_iff_right hstubs]
      refine exists_bind_iff fun preservedNodes => ?_
      split
      · rename_i hroutable
        rw [exists_readSignalNet_iff]
        constructor
        · rintro hreadable - sourcePins' sinkPins' hsource' hsink'
          rw [hsource] at hsource'
          rw [hsink] at hsink'
          cases hsource'
          cases hsink'
          exact hreadable
        · exact fun h => h hroutable _ _ hsource hsink
      · rename_i hroutable
        exact iff_of_true ⟨_, rfl⟩ fun h => absurd h hroutable
    · rename_i hstubs
      exact iff_of_false nofun fun h => hstubs h.1
  rw [readNets, runAll_isSome_iff (I := fun _ => True) (fun _ _ _ _ _ _ => trivial)
    (fun p hp st _ => hstep p hp st) trivial]
  constructor
  · intro h net hnet
    obtain ⟨i, hi⟩ := List.mem_iff_getElem?.1 hnet
    exact h (net, i) (List.mk_mem_zipIdx_iff_getElem?.2 hi)
  · intro h p hp
    exact h p.1 (List.fst_mem_of_mem_zipIdx hp)

end Device

/-! ## The design that the router gets -/

section Design

variable {K : Type}

/-- The nets and connections of a design are those that were read. -/
structure Database.ReadFrom (D : Database K) (st : ReadState D.NodeId) : Prop where
  conn : ∀ c : D.ConnId, ∃ conn : ReadConnection D.NodeId,
    st.indirectConnections[c.val]? = some conn ∧ conn.netId = (D.netOf c).val ∧
      conn.source = D.source c ∧ conn.sink = D.sink c
  net : ∀ n : D.NetId, ∃ net : ReadNet D.NodeId, st.nets[n.val]? = some net ∧
    (D.nets n).indirectConns.map Fin.val = net.indirectConns ∧
      (D.nets n).directConns = net.directConns

variable {numNodes : Nat} {device : Device (Fin numNodes)}

/-- The design before the boxes are computed. -/
def ReadState.toDatabase (st : ReadState (Fin numNodes)) (h : device.WellRead st)
    (routeNodes : Fin numNodes → RouteNode (Fin numNodes) K) (layout : BoxT)
    (deviceXMax deviceYMax : Int) : Database K where
  numNodes := numNodes
  numNets := st.nets.length
  numConns := st.indirectConnections.length
  routeNodes r := { routeNodes r with type := st.nodeType r }
  indirectConnections c :=
    { netId := ⟨(st.indirectConnections.get c).netId, h.indirect.owner_lt (List.get_mem _ _)⟩
      source := (st.indirectConnections.get c).source
      sink := (st.indirectConnections.get c).sink
      xmin := 0, xmax := 0, ymin := 0, ymax := 0
      bbox := .empty
      hpwl := 0 }
  nets n :=
    { indirectConns := (List.finRange st.indirectConnections.length).filter fun c =>
        (st.indirectConnections.get c).netId = n
      directConns := (st.nets.get n).directConns
      xCenter := 0, yCenter := 0, doubleHpwl := 0
      xmin := intMax, xmax := intMin, ymin := intMax, ymax := intMin }
  layout := layout
  deviceXMax := deviceXMax
  deviceYMax := deviceYMax
  mem_indirectConns := by
    intro n c
    rw [List.mem_filter, decide_eq_true_iff, Fin.ext_iff]
    exact and_iff_right (List.mem_finRange c)
  nodup_indirectConns n := (List.nodup_finRange _).filter _
  source_eq := by
    intro c d heq
    obtain ⟨net, hnet, hc⟩ := h.indirect.fits _ (List.get_mem st.indirectConnections c)
    obtain ⟨net', hnet', hd⟩ := h.indirect.fits _ (List.get_mem st.indirectConnections d)
    rw [Fin.ext_iff] at heq
    dsimp only at heq
    rw [heq, hnet'] at hnet
    cases hnet
    exact Option.some.inj (hc.source.symm.trans hd.source)

theorem ReadState.readFrom_toDatabase {st : ReadState (Fin numNodes)} (h : device.WellRead st)
    (routeNodes : Fin numNodes → RouteNode (Fin numNodes) K) (layout : BoxT)
    (deviceXMax deviceYMax : Int) :
    (st.toDatabase h routeNodes layout deviceXMax deviceYMax).ReadFrom st where
  conn c := ⟨_, List.getElem?_eq_getElem c.isLt, rfl, rfl, rfl⟩
  net n := by
    refine ⟨_, List.getElem?_eq_getElem n.isLt, ?_, rfl⟩
    rw [h.indirect.listed_eq (List.getElem?_eq_getElem n.isLt), ← List.map_coe_finRange_eq_range,
      List.filter_map]
    refine congrArg (List.map Fin.val) (List.filter_congr fun c _ => ?_)
    simp

end Design

end Potter
