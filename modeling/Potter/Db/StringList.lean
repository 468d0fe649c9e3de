import Mathlib.Data.List.Nodup
import Mathlib.Data.Set.Function
import Potter.Db.WrittenNet

/-!
# The string list

The PIPs of a written netlist name their tiles and wires by indices into its string list. A name of
the device is appended to the list the first time it is asked for, and the map `newStrIdMap`, keyed
by the name's index in the device, remembers where. The map from the strings of the netlist to their
indices, `string2StrIdx`, is built and never read: a name is appended even if the netlist has it.

`Keyed.getStringIndices` says what any sequence of calls leaves, and `write_asked` that the writer
does nothing else to the strings. Old indices keep their texts and the indices returned lead to the
names asked for; a string occurs twice exactly if one of the names was in the netlist already.
-/

namespace Potter

open Lib

namespace NewStrings

/-! ## A sequence of calls -/

section Calls

variable (names : Nat → String) (oldStrLen : Nat)

/-- Ask for names of the device one after the other. -/
def getStringIndices : List Nat → NewStrings → List Nat × NewStrings
  | [], s => ([], s)
  | id :: ids, s =>
    let (i, s) := s.getStringIndex oldStrLen (id, names id)
    let (is, s) := getStringIndices ids s
    (i :: is, s)

/-- The names added are those with the given indices in the device, each added once, and the map
leads to their places. -/
structure Keyed (s : NewStrings) (keys : List Nat) : Prop where
  list : s.newStrList = keys.map names
  nodup : keys.Nodup
  map : ∀ {id i}, s.newStrIdMap id = some i ↔ ∃ k, keys[k]? = some id ∧ i = oldStrLen + k

variable {names oldStrLen} {s s' : NewStrings} {keys : List Nat}

theorem keyed_empty : Keyed names oldStrLen empty [] where
  list := rfl
  nodup := List.nodup_nil
  map := by
    intro id i
    constructor
    · intro h
      cases h
    · rintro ⟨k, h, -⟩
      cases h

/-- A name without an index is added at the end. -/
theorem Keyed.add (h : Keyed names oldStrLen s keys) {id : Nat} (hid : id ∉ keys) :
    Keyed names oldStrLen
      ⟨s.newStrList ++ [names id],
        Function.update s.newStrIdMap id (some (oldStrLen + s.newStrList.length))⟩
      (keys ++ [id]) where
  list := by rw [List.map_append, h.list, List.map_singleton]
  nodup := List.nodup_append.2 ⟨h.nodup, List.nodup_singleton id, fun a ha b hb => by
    rw [List.mem_singleton.1 hb]
    exact fun e => hid (e ▸ ha)⟩
  map := by
    intro other i
    have hlen : s.newStrList.length = keys.length := by rw [h.list, List.length_map]
    dsimp only
    by_cases e : other = id
    · subst e
      rw [Function.update_self, hlen, Option.some_inj]
      constructor
      · rintro rfl
        exact ⟨keys.length, List.getElem?_concat_length, rfl⟩
      · rintro ⟨k, hk, rfl⟩
        rw [List.getElem?_append] at hk
        split at hk
        · exact absurd (List.mem_of_getElem? hk) hid
        · obtain ⟨hk', -⟩ := List.getElem?_eq_some_iff.1 hk
          rw [List.length_singleton] at hk'
          omega
    · rw [Function.update_of_ne e, h.map]
      refine exists_congr fun k => and_congr_left fun _ => ?_
      rw [List.getElem?_append]
      split
      · exact Iff.rfl
      · rename_i hk
        rw [List.getElem?_eq_none (not_lt.1 hk)]
        constructor
        · intro h
          cases h
        · intro h
          exact absurd (List.mem_singleton.1 (List.mem_of_getElem? h)) e

/-- **One call** returns the place of the name, which it adds if it has none. -/
theorem Keyed.getStringIndex (h : Keyed names oldStrLen s keys) (id : Nat) {i : Nat}
    (hcall : s.getStringIndex oldStrLen (id, names id) = (i, s')) :
    ∃ keys', Keyed names oldStrLen s' keys' ∧ keys <+: keys' ∧
      (∀ a, a ∈ keys' ↔ a ∈ keys ∨ a = id) ∧ ∃ k, keys'[k]? = some id ∧ i = oldStrLen + k := by
  unfold NewStrings.getStringIndex at hcall
  split at hcall
  · rename_i j hj
    cases hcall
    obtain ⟨k, hk, hi⟩ := h.map.1 hj
    refine ⟨keys, h, List.prefix_rfl, fun a => ?_, k, hk, hi⟩
    refine ⟨.inl, ?_⟩
    rintro (ha | rfl)
    · exact ha
    · exact List.mem_of_getElem? hk
  · rename_i hnone
    cases hcall
    have hid : id ∉ keys := by
      intro hmem
      obtain ⟨k, hk⟩ := List.getElem?_of_mem hmem
      have hsome := h.map.2 ⟨k, hk, rfl⟩
      dsimp only at hnone
      rw [hnone] at hsome
      cases hsome
    refine ⟨keys ++ [id], h.add hid, List.prefix_append _ _, fun a => ?_, keys.length,
      List.getElem?_concat_length, ?_⟩
    · rw [List.mem_append, List.mem_singleton]
    · rw [h.list, List.length_map]

/-- **A sequence of calls** adds the names asked for and returns their places. -/
theorem Keyed.getStringIndices (h : Keyed names oldStrLen s keys) (ids : List Nat) {is : List Nat}
    (hcalls : NewStrings.getStringIndices names oldStrLen ids s = (is, s')) :
    ∃ keys', Keyed names oldStrLen s' keys' ∧ keys <+: keys' ∧
      (∀ a, a ∈ keys' ↔ a ∈ keys ∨ a ∈ ids) ∧
      List.Forall₂ (fun id i => ∃ k, keys'[k]? = some id ∧ i = oldStrLen + k) ids is := by
  induction ids generalizing s keys is with
  | nil =>
    cases hcalls
    exact ⟨keys, h, List.prefix_rfl, fun a => by simp, .nil⟩
  | cons id ids ih =>
    rcases hone : s.getStringIndex oldStrLen (id, names id) with ⟨i, s₁⟩
    rcases hrest : NewStrings.getStringIndices names oldStrLen ids s₁ with ⟨is', s₂⟩
    have hboth : (i :: is', s₂) = (is, s') := by
      rw [← hcalls, NewStrings.getStringIndices, hone]
      dsimp only
      rw [hrest]
    cases hboth
    obtain ⟨keys₁, hkeyed₁, hpre₁, hmem₁, k, hk, hi⟩ := h.getStringIndex id hone
    obtain ⟨keys₂, hkeyed₂, hpre₂, hmem₂, hall⟩ := ih hkeyed₁ hrest
    refine ⟨keys₂, hkeyed₂, hpre₁.trans hpre₂, fun a => ?_, .cons ⟨k, ?_, hi⟩ hall⟩
    · rw [hmem₂, hmem₁, List.mem_cons, or_assoc]
    · obtain ⟨hlt, hget⟩ := List.getElem?_eq_some_iff.1 hk
      rw [List.prefix_iff_getElem?.1 hpre₂ k hlt, hget]

theorem getStringIndices_append (ids ids' : List Nat) (s : NewStrings) :
    (NewStrings.getStringIndices names oldStrLen (ids ++ ids') s).2 =
      (NewStrings.getStringIndices names oldStrLen ids'
        (NewStrings.getStringIndices names oldStrLen ids s).2).2 := by
  induction ids generalizing s with
  | nil => rfl
  | cons id ids ih => exact ih _

end Calls

end NewStrings

namespace Netlist

variable {V N C : Type} [LT V] {W : Netlist V N C}

/-! ## The merged list -/

/-- **What a sequence of calls makes of the string list.** The strings of the netlist keep their
indices, and an index returned leads to the name asked for. No string occurs twice exactly if the
netlist has none of these names. -/
theorem mergedStrList_nodup_iff (hstr : W.strList.Nodup) {numStrings : Nat}
    (htable : Set.InjOn W.device.stringList (Set.Iio numStrings)) {ids : List Nat}
    (hids : ∀ id ∈ ids, id < numStrings) {is : List Nat} {s : NewStrings}
    (hcalls : NewStrings.getStringIndices W.device.stringList W.strList.length ids .empty = (is, s)) :
    (∀ i < W.strList.length, (s.mergedStrList W.strList)[i]? = W.strList[i]?) ∧
      List.Forall₂ (fun id i => (s.mergedStrList W.strList)[i]? = some (W.device.stringList id))
        ids is ∧
      ((s.mergedStrList W.strList).Nodup ↔ ∀ id ∈ ids, W.device.stringList id ∉ W.strList) := by
  obtain ⟨keys, hkeyed, -, hmem, hall⟩ := NewStrings.keyed_empty.getStringIndices ids hcalls
  have hmem : ∀ a, a ∈ keys ↔ a ∈ ids := fun a => by rw [hmem, List.mem_nil_iff, false_or]
  unfold NewStrings.mergedStrList
  rw [hkeyed.list]
  refine ⟨fun i hi => List.getElem?_append_left hi, hall.imp ?_, ?_⟩
  · rintro id i ⟨k, hk, rfl⟩
    rw [List.getElem?_append_right (Nat.le_add_right _ _), Nat.add_sub_cancel_left,
      List.getElem?_map, hk, Option.map_some]
  · have hnew : (keys.map W.device.stringList).Nodup := by
      refine List.Nodup.map_on (fun a ha b hb e => ?_) hkeyed.nodup
      exact htable (hids a ((hmem a).1 ha)) (hids b ((hmem b).1 hb)) e
    rw [List.nodup_append']
    constructor
    · rintro ⟨-, -, hdisj⟩ id hid hold
      exact hdisj hold (List.mem_map_of_mem ((hmem id).2 hid))
    · intro h
      refine ⟨hstr, hnew, fun text hold htext => ?_⟩
      obtain ⟨id, hid, rfl⟩ := List.mem_map.1 htext
      exact h id ((hmem id).1 hid) hold

/-! ## The calls of the writer -/

section Writer

/-- The device has a tile or a wire with this name. -/
def IsName (W : Netlist V N C) (id : Nat) : Prop :=
  ∃ tile, id = (W.device.getTileName tile).1 ∨ ∃ wire, id = (W.device.getWireName tile wire).1

/-- From one state of the strings to another only names were asked for. -/
def Asked (W : Netlist V N C) (s s' : NewStrings) : Prop :=
  ∃ ids, (∀ id ∈ ids, W.IsName id) ∧
    s' = (NewStrings.getStringIndices W.device.stringList W.strList.length ids s).2

variable {s s' s'' : NewStrings} {fuel : Nat} {ni : N} {stubs : List RouteBranch}
  {stubOf : V → Option Nat}

theorem Asked.refl (s : NewStrings) : W.Asked s s :=
  ⟨[], fun _ h => absurd h List.not_mem_nil, rfl⟩

theorem Asked.trans (h : W.Asked s s') (h' : W.Asked s' s'') : W.Asked s s'' := by
  obtain ⟨ids, hids, rfl⟩ := h
  obtain ⟨ids', hids', rfl⟩ := h'
  refine ⟨ids ++ ids', fun id hid => ?_, (NewStrings.getStringIndices_append ids ids' s).symm⟩
  rcases List.mem_append.1 hid with hid | hid
  · exact hids id hid
  · exact hids' id hid

theorem asked_pip {rnode child : V} {pip : PhysPIP} (h : W.pip rnode child s = some (pip, s')) :
    W.Asked s s' := by
  unfold Netlist.pip at h
  obtain ⟨p, -, hrest⟩ := Option.bind_eq_some_iff.1 h
  cases hrest
  let tile := W.device.beginTileId child
  refine ⟨[_, _, _], ?_, rfl⟩
  intro id hid
  simp only [List.mem_cons, List.not_mem_nil, or_false] at hid
  rcases hid with rfl | rfl | rfl
  · exact ⟨tile, .inl rfl⟩
  · exact ⟨tile, .inr ⟨p.wire0ItIdx, rfl⟩⟩
  · exact ⟨tile, .inr ⟨p.wire1ItIdx, rfl⟩⟩

theorem asked_writePips {rnode : V} {nextRNodes : List V} {i : Nat} {branches out : List RouteBranch}
    (h : W.writePips rnode nextRNodes i branches s = some (out, s')) : W.Asked s s' := by
  induction nextRNodes generalizing i branches s with
  | nil =>
    cases h
    exact .refl _
  | cons child nextRNodes ih =>
    obtain ⟨⟨pip, s₁⟩, hpip, hrest⟩ := Option.bind_eq_some_iff.1 h
    exact (asked_pip hpip).trans (ih hrest)

variable [DecidableEq N]

theorem asked_visitNode {st st' : Walk} {item : List Nat × V} {new : List (List Nat × V)}
    (h : W.visitNode ni stubs stubOf st item = some (st', new)) : W.Asked st.strings st'.strings := by
  obtain ⟨rb, -, hrest⟩ := Option.bind_eq_some_iff.1 h
  dsimp only at hrest
  split at hrest
  · obtain ⟨branches, -, hrest⟩ := Option.bind_eq_some_iff.1 hrest
    obtain ⟨⟨out, strings⟩, hpips, hrest⟩ := Option.bind_eq_some_iff.1 hrest
    cases hrest
    exact asked_writePips hpips
  · cases hrest

theorem asked_visitSource {st st' : NetWalk} {item : Nat × List Nat} {new : List (Nat × List Nat)}
    (h : W.visitSource fuel ni stubs stubOf st item = some (st', new)) :
    W.Asked st.strings st'.strings := by
  obtain ⟨rb, -, hrest⟩ := Option.bind_eq_some_iff.1 h
  dsimp only at hrest
  split at hrest
  · obtain ⟨sourceNode, -, hrest⟩ := Option.bind_eq_some_iff.1 hrest
    split at hrest
    · obtain ⟨walk, hwalk, hrest⟩ := Option.bind_eq_some_iff.1 hrest
      cases hrest
      exact Worklist.run_invariant (fun w : Walk => W.Asked st.strings w.strings)
        (fun hs hstep => hs.trans (asked_visitNode hstep)) (.refl _) hwalk
    · cases hrest
      exact .refl _
  · cases hrest
    exact .refl _

variable [DecidableEq V]

theorem asked_writeNet {physNet : PhysNet} {numPIPs : Nat} {out : PhysNet × NetWalk}
    (h : W.writeNet fuel ni physNet s numPIPs = some out) : W.Asked s out.2.strings := by
  unfold writeNet at h
  dsimp only at h
  split at h
  · obtain ⟨stubOf, -, h⟩ := Option.bind_eq_some_iff.1 h
    obtain ⟨st, hrun, h⟩ := Option.bind_eq_some_iff.1 h
    split at h
    · cases h
      exact Worklist.run_invariant (fun w : NetWalk => W.Asked s w.strings)
        (fun hs hstep => hs.trans (asked_visitSource hstep)) (.refl _) hrun
    · cases h
  · cases h

theorem asked_writeNets {nets : List (N × PhysNet)} {numPIPs : Nat}
    {out : List PhysNet × NewStrings × Nat} (h : W.writeNets fuel nets s numPIPs = some out) :
    W.Asked s out.2.1 := by
  induction nets generalizing s numPIPs out with
  | nil =>
    cases h
    exact .refl s
  | cons net nets ih =>
    obtain ⟨r, hnet, hrest⟩ := Option.bind_eq_some_iff.1 h
    obtain ⟨rest, hnets, hout⟩ := Option.bind_eq_some_iff.1 hrest
    cases hout
    have hasked := ih hnets
    exact (asked_writeNet hnet).trans hasked

/-- **The string list that is written** is the one a sequence of calls for names leaves. -/
theorem write_asked {nets : List (N × PhysNet)} {out : List PhysNet × List String}
    (h : W.write fuel nets = some out) :
    ∃ s, W.Asked .empty s ∧ out.2 = s.mergedStrList W.strList := by
  obtain ⟨r, hnets, hout⟩ := Option.bind_eq_some_iff.1 h
  cases hout
  exact ⟨_, asked_writeNets hnets, rfl⟩

end Writer

/-! The net with three sink pins again, in a netlist that has the name of the tile among its strings:
another net is routed there already. -/

def namedDevice : Device (Fin 5) :=
  { fanoutDevice with
    stringList := fun i =>
      ["INT_X0Y0", "LOGIC_OUTS", "INT_NODE", "IMUX_A", "IMUX_B", "IMUX_C"].getD i "" }

def namedNetlist : Netlist (Fin 5) (Fin 1) (Fin 3) :=
  { fanoutNetlist with
    device := namedDevice
    strList := ["S", "O", "A", "B", "C", "INT_X0Y0"] }

theorem namedDevice_injOn : Set.InjOn namedNetlist.device.stringList (Set.Iio 6) := by
  have h : ∀ a < 6, ∀ b < 6,
      namedDevice.stringList a = namedDevice.stringList b → a = b := by decide +kernel
  exact fun a ha b hb e => h a ha b hb e

/-- The name of the tile is appended, although the netlist has it. -/
theorem mergedStrList_nodup_iff_named : ∃ is s,
    NewStrings.getStringIndices namedNetlist.device.stringList namedNetlist.strList.length [1, 0]
      .empty = (is, s) ∧ ¬(s.mergedStrList namedNetlist.strList).Nodup := by
  refine ⟨_, _, rfl, fun hnodup => ?_⟩
  have hids : ∀ id ∈ [1, 0], id < 6 := by decide
  have h := mergedStrList_nodup_iff (W := namedNetlist) (by decide +kernel) namedDevice_injOn hids rfl
  exact h.2.2.1 hnodup 0 (by decide) (by decide +kernel)

/-- **The written netlist has the name of the tile twice**, under indices 5 and 6. -/
theorem write_repeats_tile_name : namedNetlist.strList.Nodup ∧
    ∃ out ∈ namedNetlist.write 5 [(0, fanoutNet)],
      out.2[5]? = some "INT_X0Y0" ∧ out.2[6]? = some "INT_X0Y0" ∧ ¬out.2.Nodup := by
  decide +kernel

end Netlist

end Potter
