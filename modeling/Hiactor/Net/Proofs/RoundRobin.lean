import Mathlib.Data.List.Dedup
import Mathlib.Data.List.Nodup
import Mathlib.Data.Nat.ModEq
import Mathlib.Data.Nat.Prime.Basic
import Hiactor.Net.Proofs.RoutingTable

/-!
# Round-robin proxies

The cursor of a cell is stored with an offset of two, and it is advanced before the offset is taken
off: it moves by three places. It always points at an entry, and it visits all of them exactly when
their number is not a multiple of three.
-/

namespace Hiactor

open Lib

/-! ## Steps of three places -/

/-- The entry that the cursor points at after `j` calls. -/
def entryAfter (cell : List UInt32) (i j : Nat) : UInt32 :=
  (cell[(i + 3 * j) % cell.length]?).getD 0

theorem entryAfter_mem {cell : List UInt32} (proxy : cell ≠ []) (i j : Nat) :
    entryAfter cell i j ∈ cell := by
  have lower := Nat.mod_lt (i + 3 * j) (List.length_pos_iff.mpr proxy)
  rw [entryAfter, List.getElem?_eq_getElem lower]
  exact List.getElem_mem lower

theorem getElem?_entryAfter {cell : List UInt32} {i : Nat} (lower : i < cell.length) :
    cell[i]? = some (entryAfter cell i 0) := by
  simp [entryAfter, Nat.mod_eq_of_lt lower, lower]

/-- A call moves the cursor by three places. -/
theorem entryAfter_succ (cell : List UInt32) (i j : Nat) :
    entryAfter cell i (j + 1) = entryAfter cell ((i + 3) % cell.length) j := by
  rw [entryAfter, entryAfter, Nat.mod_add_mod]
  congr 3
  omega

theorem entryAfter_inj {cell : List UInt32} (proxy : cell ≠ []) (nodup : cell.Nodup) {i j k : Nat} :
    entryAfter cell i j = entryAfter cell i k ↔ i + 3 * j ≡ i + 3 * k [MOD cell.length] := by
  have first := Nat.mod_lt (i + 3 * j) (List.length_pos_iff.mpr proxy)
  have second := Nat.mod_lt (i + 3 * k) (List.length_pos_iff.mpr proxy)
  rw [entryAfter, entryAfter, List.getElem?_eq_getElem first, List.getElem?_eq_getElem second]
  exact nodup.getElem_inj_iff

/-- A round of as many calls as there are entries visits none of them twice exactly when three does
not divide their number. -/
theorem nodup_entryAfter_iff {cell : List UInt32} (proxy : cell ≠ []) (nodup : cell.Nodup)
    (i : Nat) :
    ((List.range cell.length).map (entryAfter cell i)).Nodup ↔ ¬3 ∣ cell.length := by
  have some_proxy := List.length_pos_iff.mpr proxy
  rw [List.nodup_map_iff_inj_on List.nodup_range]
  constructor
  · rintro injective ⟨third, size⟩
    -- the cursor is back after a third of the calls
    have again := injective 0 (List.mem_range.mpr some_proxy) third
      (List.mem_range.mpr (by omega))
      ((entryAfter_inj proxy nodup).mpr (by simp [Nat.ModEq, ← size]))
    omega
  · intro notThird j first k second same
    have coprime : Nat.gcd cell.length 3 = 1 :=
      ((Nat.prime_three.coprime_iff_not_dvd).mpr notThird).symm
    have congruent := Nat.ModEq.cancel_left_of_coprime coprime
      (((entryAfter_inj proxy nodup).mp same).add_left_cancel')
    exact congruent.eq_of_lt_of_lt (List.mem_range.mp first) (List.mem_range.mp second)

/-- A list of as many entries as the cell has visits each of them exactly once when it repeats
none. -/
theorem count_eq_one_iff_nodup {cell visited : List UInt32} (nodup : cell.Nodup)
    (entries : ∀ sid ∈ visited, sid ∈ cell) (length : visited.length = cell.length) :
    (∀ sid ∈ cell, visited.count sid = 1) ↔ visited.Nodup := by
  constructor
  · intro once
    refine List.nodup_iff_count_le_one.mpr fun sid => ?_
    by_cases member : sid ∈ visited
    · exact (once sid (entries sid member)).le
    · rw [List.count_eq_zero_of_not_mem member]
      exact Nat.zero_le 1
  · intro unique sid member
    have perm : visited.Perm cell := (List.subperm_of_subset unique entries).perm_of_length_le
      length.ge
    rw [perm.count_eq, List.count_eq_one_of_mem nodup member]

/-! ## Calls of `get_destination` -/

namespace RoutingArray

/-- The array of a table whose cursors point at the entries with these indices. -/
structure Turned (t : RoutingArray) (table : RouteLists) (pos : Nat → Nat) : Prop where
  own : t.WritesOwn
  layout : Layout t table fun m => 2 + pos m
  lower : ∀ (m : Nat) (cell : List UInt32), table.cells[m]? = some cell → cell ≠ [] →
    pos m < cell.length

variable {t t' : RoutingArray} {table : RouteLists} {pos : Nat → Nat}

/-- The index of a cursor after a call for machine `m`. -/
def advance (table : RouteLists) (pos : Nat → Nat) (m : Nat) : Nat → Nat :=
  Function.update pos m ((pos m + 3) % ((table.cells[m]?).getD []).length)

/-- A call returns the entry at the cursor and advances the cursor of this cell alone. -/
theorem Turned.call (turned : Turned t table pos) {g m : UInt32} {cell : List UInt32}
    (index : table.sid2mid[g.toNat]? = some m) (here : table.cells[m.toNat]? = some cell)
    (proxy : cell ≠ []) :
    ∃ t', t.getDestinationRoundRobin g = some (⟨m, entryAfter cell (pos m.toNat) 0⟩, t') ∧
      Turned t' table (advance table pos m.toNat) := by
  have layout := turned.layout
  have lower := turned.lower m.toNat cell here proxy
  have inside := (List.getElem?_eq_some_iff.mp here).1
  have early := (List.getElem?_eq_some_iff.mp index).1
  have cellAt := layout.cell m.toNat cell here
  have width := layout.width m.toNat cell here
  have within := layout.base_le inside
  have fits := layout.fits
  have head := layout.head
  have length : (UInt32.ofNat cell.length).toNat = cell.length := toNat_ofNat_of_lt (by omega)
  have cursor : (UInt32.ofNat (2 + pos m.toNat)).toNat = 2 + pos m.toNat :=
    toNat_ofNat_of_lt (by omega)
  have nonzero : UInt32.ofNat cell.length ≠ 0 := by
    intro zero
    rw [zero] at length
    simp at length
    omega
  have machine : t.read g.toNat = some m := by
    rw [read, if_pos (by rw [base] at within; omega), layout.index _ _ index]
  have curPos : t.read (t.base m.toNat + 1) = some (UInt32.ofNat (2 + pos m.toNat)) :=
    cellAt.cursor ▸ if_pos (by omega)
  have count : t.read (t.base m.toNat) = some (UInt32.ofNat cell.length) :=
    cellAt.count ▸ if_pos (by omega)
  have entry : t.read (t.base m.toNat + (2 + pos m.toNat)) =
      some (entryAfter cell (pos m.toNat) 0) := by
    rw [← Nat.add_assoc, read, if_pos (by omega), cellAt.entry _ _ (getElem?_entryAfter lower)]
  have next : (UInt32.ofNat (2 + pos m.toNat) + 1) % UInt32.ofNat cell.length + 2 =
      UInt32.ofNat (2 + (pos m.toNat + 3) % cell.length) := by
    have turn := Nat.mod_lt (pos m.toNat + 3) (List.length_pos_iff.mpr proxy)
    have two : (2 : UInt32).toNat = 2 := rfl
    rw [← UInt32.toNat_inj, UInt32.toNat_add, UInt32.toNat_mod, UInt32.toNat_add, cursor, length,
      toNat_ofNat_of_lt (by omega), UInt32.toNat_one, two,
      Nat.mod_eq_of_lt (show 2 + pos m.toNat + 1 < 2 ^ 32 by omega),
      show 2 + pos m.toNat + 1 = pos m.toNat + 3 by omega, Nat.mod_eq_of_lt (by omega),
        Nat.add_comm]
  obtain ⟨t', wrote, shape, own, words⟩ := write_cell turned.own
    (show 1 < t.cellSize.toNat by omega) within (UInt32.ofNat (2 + (pos m.toNat + 3) % cell.length))
  refine ⟨t', ?_, own, ?_, ?_⟩
  · simp only [getDestinationRoundRobin, machine, layout.cellPtr_eq inside, curPos, cursor, entry,
      count, nonzero, next, wrote, Option.bind_eq_bind, Option.bind_some, if_false]
    rfl
  · -- the other words of the cell stay
    have same : { table with cells := table.cells.set m.toNat cell } = table := by
      have set : table.cells.set m.toNat cell = table.cells := by
        rw [← (List.getElem?_eq_some_iff.mp here).2, List.set_getElem_self]
      rw [set]
    have cursors : (fun n => 2 + advance table pos m.toNat n) =
        Function.update (fun n => 2 + pos n) m.toNat (2 + (pos m.toNat + 3) % cell.length) := by
      funext n
      rw [advance, here, Function.update_apply, Function.update_apply]
      split <;> rfl
    rw [cursors, ← same]
    refine layout.setCell here shape ?_ ⟨?_, ?_, ?_⟩ width
    · intro i outside
      rw [words, Function.update_of_ne (by omega)]
    · rw [words, Function.update_of_ne (by omega), cellAt.count]
    · rw [words, Function.update_self]
    · intro i sid at'
      rw [words, Function.update_of_ne (by omega), cellAt.entry i sid at']
  · intro n other at' some_entry
    unfold advance
    rw [Function.update_apply]
    split
    case isTrue same =>
      rw [same, here] at at'
      obtain rfl := Option.some.inj at'
      rw [here]
      exact Nat.mod_lt _ (List.length_pos_iff.mpr proxy)
    case isFalse => exact turned.lower n other at' some_entry

/-- The destinations of some messages on machine `m`. -/
def targetsOf (dests : List DestInfo) (m : UInt32) : List UInt32 :=
  (dests.filter (·.machineId = m)).map (·.targetSid)

/-- Successive calls for a machine return the entries at the positions of its cursor, whatever calls
for other machines are in between. -/
theorem Turned.calls (turned : Turned t table pos) {gs : List UInt32}
    (known : ∀ g ∈ gs, ∃ (m : UInt32) (cell : List UInt32), table.sid2mid[g.toNat]? = some m ∧
      table.cells[m.toNat]? = some cell ∧ cell ≠ []) :
    ∃ dests t' pos', t.destinations gs = some (dests, t') ∧ Turned t' table pos' ∧
      ∀ (m : UInt32) (cell : List UInt32), table.cells[m.toNat]? = some cell →
        targetsOf dests m =
          (List.range (targetsOf dests m).length).map (entryAfter cell (pos m.toNat)) := by
  induction gs generalizing t pos with
  | nil => exact ⟨[], t, pos, rfl, turned, fun m cell here => rfl⟩
  | cons g gs ih =>
    obtain ⟨m, cell, index, here, proxy⟩ := known g List.mem_cons_self
    obtain ⟨u, called, turned'⟩ := turned.call index here proxy
    obtain ⟨dests, t', pos', rest, turned'', all⟩ :=
      ih turned' fun other member => known other (List.mem_cons_of_mem g member)
    refine ⟨⟨m, entryAfter cell (pos m.toNat) 0⟩ :: dests, t', pos', ?_, turned'',
      fun n other there => ?_⟩
    · simp only [destinations, called, Option.bind_eq_bind, Option.bind_some, rest]
      rfl
    · have later := all n other there
      by_cases same : m = n
      · subst same
        obtain rfl := Option.some.inj (here.symm.trans there)
        have first : targetsOf (⟨m, entryAfter cell (pos m.toNat) 0⟩ :: dests) m =
            entryAfter cell (pos m.toNat) 0 :: targetsOf dests m := by
          simp [targetsOf]
        rw [first, List.length_cons, List.range_succ_eq_map, List.map_cons, List.map_map]
        congr 1
        rw [advance, Function.update_self, here] at later
        rw [later]
        simp [Function.comp_def, entryAfter_succ]
      · have skipped : targetsOf (⟨m, entryAfter cell (pos m.toNat) 0⟩ :: dests) n =
            targetsOf dests n := by
          simp [targetsOf, same]
        rw [skipped, later, advance, Function.update_of_ne]
        · simp
        · exact fun equal => same (UInt32.toNat_inj.mp equal.symm)

end RoutingArray

/-! ## The machines of a cluster -/

namespace LocalConnections

open RoutingArray

variable {c : WorkerCluster} (l : LocalConnections c)

/-- The shard has an id of a machine to which there is a connection. -/
def Connected (g : UInt32) : Prop :=
  ∃ m s, (m, s) ∈ c.shards ∧ g = (c.info m).globalShardId s ∧ ∃ ids ∈ l.machIds, m ∈ ids

/-- The shards that were inserted into the cell of a machine. -/
def proxies (m : UInt32) : List UInt32 := RoutingArray.proxies l.shardedMids m

/-- The cell that the calls for a connected shard use. -/
theorem Connected.cell {g : UInt32} (connected : l.Connected g) :
    ∃ (m : UInt32) (cell : List UInt32),
      (RouteLists.build (c.config l.machine) l.shardedMids).sid2mid[g.toNat]? = some m ∧
        (RouteLists.build (c.config l.machine) l.shardedMids).cells[m.toNat]? = some cell ∧
        cell ≠ [] := by
  obtain ⟨m, s, shard, rfl, peer⟩ := connected
  obtain ⟨node, there, -⟩ := c.mem_shards.mp shard
  exact ⟨m, _, WorkerCluster.sid2mid_globalShardId l.here l.shardedMids shard,
    l.cell_build (List.getElem?_eq_some_iff.mp there).1, l.proxies_ne_nil peer⟩

theorem nodup_proxies (m : UInt32) : (l.proxies m).Nodup := by
  refine RoutingArray.nodup_proxies ?_ m
  rw [shardedMids, List.length_map, l.perShard]
  exact UInt32.toNat_lt _

/-- After any calls the cursor of a cell points at an entry, and as many further calls for the
machine as it has proxies use each of them exactly once if and only if three does not divide their
number. -/
theorem proxies_in_turn_iff {fresh : Nat → UInt32} {t : RoutingArray}
    (built : l.build fresh = some t)
    {earlier calls : List UInt32} (known : ∀ g ∈ earlier ++ calls, l.Connected g) {m : UInt32}
    (machine : m.toNat < c.nodes.length) (proxy : l.proxies m ≠ []) :
    ∃ before t₁ dests t₂, t.destinations earlier = some (before, t₁) ∧
      t₁.destinations calls = some (dests, t₂) ∧
      (∃ (i : Nat) (sid : UInt32), (l.proxies m)[i]? = some sid ∧
        t₁.words (t₁.base m.toNat + 1) = UInt32.ofNat (2 + i) ∧
        t₁.words (t₁.base m.toNat + (2 + i)) = sid) ∧
      ((targetsOf dests m).length = (l.proxies m).length →
        ((∀ sid ∈ l.proxies m, (targetsOf dests m).count sid = 1) ↔
          ¬3 ∣ (l.proxies m).length)) := by
  obtain ⟨t', built', own, layout⟩ := l.build_of_fits (l.fits_of_build built) fresh
  obtain rfl := Option.some.inj (built.symm.trans built')
  have start : Turned t (RouteLists.build (c.config l.machine) l.shardedMids) fun _ => 0 :=
    ⟨own, layout, fun n cell _ some_entry => List.length_pos_iff.mpr some_entry⟩
  obtain ⟨before, t₁, pos, ran₁, turned, -⟩ := start.calls fun g member =>
    (known g (List.mem_append_left _ member)).cell
  obtain ⟨dests, t₂, pos', ran₂, -, all⟩ := turned.calls fun g member =>
    (known g (List.mem_append_right _ member)).cell
  have here : _ = some (l.proxies m) := l.cell_build machine
  have lower := turned.lower m.toNat _ here proxy
  have cellAt := turned.layout.cell m.toNat _ here
  refine ⟨before, t₁, dests, t₂, ran₁, ran₂, ⟨pos m.toNat, _, getElem?_entryAfter lower,
    cellAt.cursor, ?_⟩, fun count => ?_⟩
  · rw [← Nat.add_assoc]
    exact cellAt.entry _ _ (getElem?_entryAfter lower)
  · have visited := all m _ here
    rw [count] at visited
    have entries : ∀ sid ∈ targetsOf dests m, sid ∈ l.proxies m := by
      intro sid member
      rw [visited] at member
      obtain ⟨j, -, rfl⟩ := List.mem_map.mp member
      exact entryAfter_mem proxy _ j
    rw [count_eq_one_iff_nodup (l.nodup_proxies m) entries count, visited]
    exact nodup_entryAfter_iff proxy (l.nodup_proxies m) _

/-- Both shards of the first machine have a connection to the other machine. -/
def twoProxies : LocalConnections WorkerCluster.twoMachines where
  machine := 0
  node := ⟨0, 2, ⟨0x0A000001, 3000⟩⟩
  here := firstMachine_here
  machIds := [[1], [1]]
  perShard := rfl
  peers := by simp [WorkerCluster.twoMachines]

theorem twoProxies_in_turn :
    ∃ t before t₁ dests t₂, twoProxies.build (fun _ => 0) = some t ∧
      t.destinations [2] = some (before, t₁) ∧ t₁.destinations [4, 3] = some (dests, t₂) ∧
      ∀ sid ∈ [0, 1], (targetsOf dests 1).count sid = 1 := by
  have connected : ∀ g ∈ [2] ++ [4, 3], twoProxies.Connected g := by
    have shard (s : UInt32) (lower : s.toNat < 3) :
        twoProxies.Connected ((WorkerCluster.twoMachines.info 1).globalShardId s) :=
      ⟨1, s, ⟨_, rfl, lower⟩, rfl, [1], by decide⟩
    intro g member
    simp only [List.cons_append, List.nil_append, List.mem_cons, List.not_mem_nil, or_false]
      at member
    rcases member with rfl | rfl | rfl
    · exact shard 0 (by decide)
    · exact shard 2 (by decide)
    · exact shard 1 (by decide)
  obtain ⟨t, built, -⟩ := twoProxies.build_of_fits (by decide) fun _ => 0
  obtain ⟨before, t₁, dests, t₂, ran₁, ran₂, -, turn⟩ :=
    twoProxies.proxies_in_turn_iff built connected (m := 1) (by decide) (by decide)
  have computed : (twoProxies.build fun _ => 0).bind (fun t => (t.destinations [2]).bind
      fun r => (r.2.destinations [4, 3]).map fun r => (targetsOf r.1 1).length) = some 2 := by
    decide +kernel
  simp only [built, Option.bind_some, ran₁, ran₂, Option.map_some] at computed
  have count : (targetsOf dests 1).length = 2 := Option.some.inj computed
  exact ⟨t, before, t₁, dests, t₂, built, ran₁, ran₂, (turn count).mpr (by decide)⟩

/-- All three shards of the second machine have a connection to the first machine. -/
def threeProxies : LocalConnections WorkerCluster.twoMachines where
  machine := 1
  node := ⟨1, 3, ⟨0x0A000002, 3000⟩⟩
  here := rfl
  machIds := [[0], [0], [0]]
  perShard := rfl
  peers := by simp [WorkerCluster.twoMachines]

/-- The cursor of a cell with three proxies never moves. -/
theorem threeProxies_not_in_turn :
    (threeProxies.build fun _ => 0).bind (fun t =>
      (t.destinations [0, 1, 0]).map fun (dests, _) => targetsOf dests 0) = some [0, 0, 0] ∧
    threeProxies.proxies 0 = [0, 1, 2] := by
  decide +kernel

end LocalConnections

end Hiactor
