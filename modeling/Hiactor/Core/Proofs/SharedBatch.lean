import Mathlib.Data.List.Infix
import Hiactor.Core.Proofs.ColumnBatch
import Hiactor.Core.SharedBatch

/-!
# What shared columns keep

A batch and a handle that was shared from it write to the same places. Each of them keeps its
elements, and what was dumped from it is loaded with these, as long as the pushes of the two agree
and a later dump does not write another count.
-/

namespace Hiactor

open Lib

variable {α : Type}

/-! ## Elements of varying length -/

namespace DynamicColumnBatch

variable {b b' c : DynamicColumnBatch α} {es others : List (List α)} {rounds : Nat} {e : List α}

/-- What is seen of a batch. -/
def Shows (b : DynamicColumnBatch α) (es : List (List α)) : Prop :=
  b.size.toNat = es.length ∧ ∀ i, (inside : i < es.length) → b.get i = some (es[i].map some)

theorem Filled.shows (filled : b.Filled es) : b.Shows es :=
  ⟨filled.size, fun _ inside => filled.get inside⟩

theorem metadataOf_isPrefix (offset : Nat) (front : es <+: others) :
    metadataOf offset es <+: metadataOf offset others := by
  obtain ⟨rest, rfl⟩ := front
  rw [metadataOf_append]
  exact List.prefix_append _ _

/-- The places that a push writes to. -/
theorem Filled.writes (filled : b.Filled es) (pushed : b.pushBackHelper rounds e = some b') :
    b'.bw.metaBuf.size = b.bw.metaBuf.size ∧
      b.bw.metaBuf.metas.write es.length (metadataOf es.flatten.length [e]) =
        some b'.bw.metaBuf.metas ∧
      (¬ b.bw.occupied + UInt32.ofNat e.length > b.bw.reserved →
        b.bw.dataBuf.write es.flatten.length e = some b'.bw.dataBuf) := by
  obtain ⟨bw, metas, dataBuf, ensured, wrote_meta, wrote_data, rfl⟩ := pushBackHelper_iff.mp pushed
  obtain ⟨keeps, same_meta⟩ := filled.units.ensureSpace ensured
  have start : bw.occupied = UInt32.ofNat es.flatten.length := by
    rw [← keeps.occupied, UInt32.ofNat_toNat]
  have same_size : bw.metaBuf.size = b.bw.metaBuf.size := congrArg MetaBuf.size same_meta
  refine ⟨same_size, ?_, fun enough => ?_⟩
  · rw [filled.size, same_meta, start] at wrote_meta
    exact wrote_meta
  · have same := ensured
    rw [BufWrapper.ensureSpace, if_neg enough] at same
    obtain rfl := Option.some.inj same
    rw [← keeps.occupied]
    exact wrote_data

/-- The records of another handle that agrees stay. -/
theorem Filled.meta_pushed (other : c.Filled others) (filled : b.Filled es)
    (pushed : b.pushBackHelper rounds e = some b')
    (shared : c.bw.metaBuf.metas = b.bw.metaBuf.metas) (agree : Agree (es ++ [e]) others) :
    { c with bw.metaBuf := b'.bw.metaBuf }.Filled others := by
  obtain ⟨-, wrote, -⟩ := filled.writes pushed
  obtain ⟨filled', -⟩ := filled.pushBackHelper pushed
  have place : es.length = 0 + (metadataOf 0 es).length := by rw [length_metadataOf, Nat.zero_add]
  have start : es.flatten.length = 0 + es.flatten.length := (Nat.zero_add _).symm
  have split := metadataOf_append 0 es [e]
  have held := other.metas
  have after := filled'.metas
  rw [shared] at held
  rw [split, ← start] at after
  have agree' : Agree (metadataOf 0 es ++ metadataOf es.flatten.length [e])
      (metadataOf 0 others) := by
    rw [start, ← split]
    exact agree.imp (metadataOf_isPrefix 0) (metadataOf_isPrefix 0)
  have units := other.units
  refine ⟨⟨units.data, units.occupied, units.reserved⟩, ?_, other.size, ?_⟩
  · rw [place] at wrote
    exact held.write_agree wrote after agree'
  · rw [← other.capacity, shared]
    exact Cells.length_write wrote

/-- The units of another handle that agrees stay where both have them in one buffer. -/
theorem Filled.data_pushed (other : c.Filled others) (filled : b.Filled es)
    (pushed : b.pushBackHelper rounds e = some b') (shared : c.bw.dataBuf = b.bw.dataBuf)
    (enough : ¬ b.bw.occupied + UInt32.ofNat e.length > b.bw.reserved)
    (agree : Agree (es ++ [e]) others) : { c with bw.dataBuf := b'.bw.dataBuf }.Filled others := by
  obtain ⟨-, -, wrote⟩ := filled.writes pushed
  obtain ⟨filled', -⟩ := filled.pushBackHelper pushed
  have wrote := wrote enough
  have split : (es ++ [e]).flatten = es.flatten ++ e := by
    rw [List.flatten_append, List.flatten_singleton]
  have held := other.units.data
  have after := filled'.units.data
  rw [shared] at held
  rw [split] at after
  have agree' : Agree (es.flatten ++ e) others.flatten := by
    rw [← split]
    exact agree.imp List.IsPrefix.flatten List.IsPrefix.flatten
  refine ⟨⟨?_, other.units.occupied, ?_⟩, other.metas, other.size, other.capacity⟩
  · rw [← Nat.zero_add es.flatten.length] at wrote
    exact held.write_agree wrote after agree'
  · rw [← other.units.reserved, shared]
    exact Cells.length_write wrote

end DynamicColumnBatch

namespace SharedDynamic

open DynamicColumnBatch

variable {type : DynamicType} {rounds : Nat} {s s' : SharedDynamic α} {side h : Side}
  {p : DynamicPush α} {b b' : DynamicColumnBatch α} {es others : List (List α)}

/-- What a push does. -/
theorem pushBack_cases (pushed : s.pushBack rounds side p = some s') :
    ∃ b b', (s.handles side).dumped = none ∧ s.view side = some b ∧
      b.pushBack rounds p = some b' ∧ s' = {
        metaBuf := b'.bw.metaBuf
        dataBufs := if b.bw.occupied + UInt32.ofNat p.element.length > b.bw.reserved then
            s.dataBufs ++ [b'.bw.dataBuf]
          else s.dataBufs.set (s.handles side).dataBuf b'.bw.dataBuf
        handles := Function.update s.handles side {
          dataBuf := if b.bw.occupied + UInt32.ofNat p.element.length > b.bw.reserved then
              s.dataBufs.length
            else (s.handles side).dataBuf
          occupied := b'.bw.occupied
          reserved := b'.bw.reserved
          size := b'.size
          capacity := b'.capacity
          dumped := none } } := by
  unfold pushBack at pushed
  split at pushed
  · next live =>
    simp only [Option.bind_eq_bind, Option.bind_eq_some_iff, Option.pure_def,
      Option.some.injEq] at pushed
    obtain ⟨b, shown, b', pushed, rfl⟩ := pushed
    exact ⟨b, b', live, shown, pushed, rfl⟩
  · cases pushed

/-- The store holds `b`, which a handle shows or was dumped from. -/
structure Backs (type : DynamicType) (s : SharedDynamic α) (side : Side)
    (b : DynamicColumnBatch α) : Prop where
  metaBuf : b.bw.metaBuf = s.metaBuf
  dataBuf : s.dataBufs[(s.handles side).dataBuf]? = some b.bw.dataBuf
  view : (s.handles side).dumped = none → s.view side = some b
  lengths : ∀ lengths, (s.handles side).dumped = some lengths →
    lengths = (BufWrapper.getMetaLength b.size, b.bw.getDataLength type)

/-- A handle that a step leaves as it is, over changed buffers. -/
theorem Backs.changed {dataBuf : Cells α} (backs : s.Backs type side b)
    (same : s'.handles side = s.handles side)
    (found : s'.dataBufs[(s.handles side).dataBuf]? = some dataBuf) :
    s'.Backs type side { b with bw.metaBuf := s'.metaBuf, bw.dataBuf := dataBuf } := by
  refine ⟨rfl, by rw [same]; exact found, fun live => ?_, fun lengths dumped => ?_⟩
  · rw [same] at live
    obtain ⟨old, -, rfl⟩ := Option.map_eq_some_iff.mp (backs.view live)
    rw [SharedDynamic.view, same, found]
    rfl
  · rw [same] at dumped
    exact backs.lengths lengths dumped

/-- The handle that is pushed to. -/
theorem Backs.push_self (backs : s.Backs type side b) (filled : b.Filled es)
    (pushed : s.pushBack rounds side p = some s') :
    ∃ b', b'.Filled (es ++ [p.element]) ∧ s'.Backs type side b' := by
  obtain ⟨same, b', live, shown, taken, rfl⟩ := pushBack_cases pushed
  obtain rfl := Option.some.inj (shown.symm.trans (backs.view live))
  obtain ⟨filled', -⟩ := filled.pushBack taken
  obtain ⟨inside, -⟩ := List.getElem?_eq_some_iff.mp backs.dataBuf
  have found : (if same.bw.occupied + UInt32.ofNat p.element.length > same.bw.reserved then
        s.dataBufs ++ [b'.bw.dataBuf]
      else s.dataBufs.set (s.handles side).dataBuf b'.bw.dataBuf)[
        if same.bw.occupied + UInt32.ofNat p.element.length > same.bw.reserved then
          s.dataBufs.length
        else (s.handles side).dataBuf]? = some b'.bw.dataBuf := by
    split
    · exact List.getElem?_concat_length
    · exact List.getElem?_set_self inside
  refine ⟨b', filled', rfl, ?_, fun _ => ?_, fun lengths dumped => ?_⟩
  · simp only [Function.update_self]
    exact found
  · simp only [SharedDynamic.view, Function.update_self, found]
    rfl
  · simp only [Function.update_self] at dumped
    cases dumped

/-- The count in the store is written by dumps only. -/
theorem Backs.push_size (backs : s.Backs type side b) (filled : b.Filled es)
    (pushed : s.pushBack rounds side p = some s') : s'.metaBuf.size = s.metaBuf.size := by
  obtain ⟨same, b', live, shown, taken, rfl⟩ := pushBack_cases pushed
  obtain rfl := Option.some.inj (shown.symm.trans (backs.view live))
  rw [filled.pushBack_eq] at taken
  obtain ⟨size, -, -⟩ := filled.writes taken
  rw [← backs.metaBuf]
  exact size

/-- The other handle, when it agrees. -/
theorem Backs.push_other {c : DynamicColumnBatch α} (apart : h ≠ side)
    (backs : s.Backs type side b) (filled : b.Filled es) (other : s.Backs type h c)
    (filled_other : c.Filled others) (agree : Agree (es ++ [p.element]) others)
    (pushed : s.pushBack rounds side p = some s') :
    ∃ c', c'.Filled others ∧ s'.Backs type h c' := by
  obtain ⟨same, b', live, shown, taken, rfl⟩ := pushBack_cases pushed
  obtain rfl := Option.some.inj (shown.symm.trans (backs.view live))
  rw [filled.pushBack_eq] at taken
  have shared : c.bw.metaBuf.metas = same.bw.metaBuf.metas := by
    rw [other.metaBuf, backs.metaBuf]
  have filled_meta := filled_other.meta_pushed filled taken shared agree
  obtain ⟨inside, -⟩ := List.getElem?_eq_some_iff.mp other.dataBuf
  by_cases regrown : same.bw.occupied + UInt32.ofNat p.element.length > same.bw.reserved
  · refine ⟨_, filled_meta, other.changed (Function.update_of_ne apart _ _) ?_⟩
    rw [if_pos regrown, List.getElem?_append_left inside]
    exact other.dataBuf
  · by_cases one_buffer : (s.handles h).dataBuf = (s.handles side).dataBuf
    · -- both write to one buffer
      have shared_data : c.bw.dataBuf = same.bw.dataBuf := by
        have found := other.dataBuf
        rw [one_buffer] at found
        exact Option.some.inj (found.symm.trans backs.dataBuf)
      have filled_data :=
        filled_meta.data_pushed filled taken shared_data regrown agree
      refine ⟨_, filled_data, other.changed (Function.update_of_ne apart _ _) ?_⟩
      rw [if_neg regrown, ← one_buffer]
      exact List.getElem?_set_self inside
    · refine ⟨_, filled_meta, other.changed (Function.update_of_ne apart _ _) ?_⟩
      rw [if_neg regrown, List.getElem?_set_ne (Ne.symm one_buffer)]
      exact other.dataBuf

/-- The elements of a handle are in the store. -/
def Stores (type : DynamicType) (s : SharedDynamic α) (side : Side) (es : List (List α)) : Prop :=
  ∃ b : DynamicColumnBatch α, b.Filled es ∧ s.Backs type side b

theorem Stores.dump (stores : s.Stores type h es) (side : Side) :
    (s.dumpTo type side).Stores type h es := by
  obtain ⟨b, filled, backs⟩ := stores
  unfold dumpTo
  split
  · next live =>
    have counted : { b with bw.metaBuf := { s.metaBuf with size := some (s.handles side).size }
        }.Filled es := by
      refine ⟨⟨filled.units.data, filled.units.occupied, filled.units.reserved⟩, ?_, filled.size,
        ?_⟩
      · rw [← backs.metaBuf]
        exact filled.metas
      · rw [← backs.metaBuf]
        exact filled.capacity
    by_cases same : h = side
    · subst same
      obtain ⟨old, -, rfl⟩ := Option.map_eq_some_iff.mp (backs.view live)
      refine ⟨_, counted, rfl, ?_, fun open_side => ?_, fun lengths dumped => ?_⟩
      · simp only [Function.update_self]
        exact backs.dataBuf
      · simp only [Function.update_self] at open_side
        cases open_side
      · simp only [Function.update_self] at dumped
        exact (Option.some.inj dumped).symm
    · exact ⟨_, counted, backs.changed (Function.update_of_ne same _ _) backs.dataBuf⟩
  · exact ⟨b, filled, backs⟩

theorem live_dumpTo : ((s.dumpTo type side).handles h).dumped = none ↔
    (s.handles h).dumped = none ∧ h ≠ side := by
  unfold dumpTo
  by_cases same : h = side
  · subst same
    split
    · simp
    · next dumped => simp [dumped]
  · split
    · simp [same]
    · simp [same]

end SharedDynamic

/-- The buffers that the elements are dumped to are of less than 2 ^ 32 bytes. -/
def DynamicType.Small (type : DynamicType) (es : List (List α)) : Prop :=
  4 + 8 * es.length + type.dataSize.toNat * es.flatten.length < 2 ^ 32

instance (type : DynamicType) (es : List (List α)) : Decidable (type.Small es) :=
  inferInstanceAs (Decidable (_ < _))

namespace SharedDynamic

open DynamicColumnBatch

variable {type : DynamicType} {rounds : Nat} {s : SharedDynamic α}
  {uses : List (Use (DynamicPush α))} {b : DynamicColumnBatch α} {es : List (List α)}

theorem elements_isPrefix {ps more : List (DynamicPush α)} (front : ps <+: more) :
    elements ps <+: elements more :=
  front.map DynamicPush.element

theorem elements_concat (ps : List (DynamicPush α)) (p : DynamicPush α) :
    es ++ elements (ps ++ [p]) = es ++ elements ps ++ [p.element] := by
  simp [elements]

/-- The store of a batch that had the elements `es` when it was shared. -/
def sharing (type : DynamicType) (rounds : Nat) (es : List (List α)) :
    Sharing (fun (s : SharedDynamic α) side (p : DynamicPush α) => s.pushBack rounds side p)
      fun s side => s.dumpTo type side where
  Live s side := (s.handles side).dumped = none
  Stores s side ps := s.Stores type side (es ++ elements ps)
  Counted s n := s.metaBuf.size.map UInt32.toNat = some (es.length + n)
  Allowed items := ∀ side : Side, Agree (elements (items side)) (elements (items side.other))
  allowed_of_isPrefix := by
    intro items more allowed front side
    exact (allowed side).of_isPrefix (elements_isPrefix (front side))
      (elements_isPrefix (front side.other))
  push_live := by
    intro s s' side p pushed
    obtain ⟨b, b', live, -, -, rfl⟩ := pushBack_cases pushed
    refine ⟨live, fun h => ?_⟩
    by_cases same : h = side
    · subst same
      simp [live]
    · simp [Function.update_of_ne same]
  push_stores := by
    intro s s' side p items pushed stores agree
    have agree_side := (agree side).append_left es
    rw [Function.update_self, elements_concat] at agree_side
    obtain ⟨b, filled, backs⟩ := stores side
    refine ⟨fun h => ?_, fun n counted => ?_⟩
    · by_cases same : h = side
      · subst same
        rw [Function.update_self, elements_concat]
        exact backs.push_self filled pushed
      · obtain rfl := Side.eq_other same
        rw [Function.update_of_ne same] at agree_side ⊢
        obtain ⟨c, filled_other, other⟩ := stores side.other
        exact backs.push_other same filled other filled_other agree_side pushed
    · rw [backs.push_size filled pushed]
      exact counted
  dump_live := live_dumpTo
  dump_stores stores := stores.dump _
  dump_counted := by
    intro s side ps live stores
    obtain ⟨b, filled, backs⟩ := stores
    obtain ⟨old, -, rfl⟩ := Option.map_eq_some_iff.mp (backs.view live)
    have size := filled.size
    rw [dumpTo, if_pos live]
    rw [List.length_append, length_elements] at size
    exact congrArg some size
  dump_again := by
    intro s side dumped
    exact if_neg dumped

theorem share_backs (b : DynamicColumnBatch α) (side : Side) : b.share.Backs type side b where
  metaBuf := rfl
  dataBuf := rfl
  view _ := rfl
  lengths _ dumped := by cases dumped

theorem tracks_share (filled : b.Filled es) : (sharing type rounds es).Tracks [] b.share := by
  refine Sharing.tracks_nil (fun side => ?_) fun _ => rfl
  refine ⟨b, ?_, share_backs b side⟩
  rw [elements, List.map_nil, List.append_nil]
  exact filled

theorem tracks_run (filled : b.Filled es)
    (agree : Agree (elements (own .original uses)) (elements (own .shared uses)))
    (ran : run (step type rounds) b.share uses = some s) :
    (sharing type rounds es).Tracks uses s := by
  have both (side : Side) : Agree (elements (own side uses)) (elements (own side.other uses)) := by
    cases side with
    | original => exact agree
    | shared => exact agree.symm
  exact (tracks_share filled).run both ran

/-- A handle that was not dumped has its elements. -/
theorem view_shows {side : Side} (tracks : (sharing type rounds es).Tracks uses s)
    (live : .dump side ∉ uses) :
    ∃ v, s.view side = some v ∧ v.Shows (es ++ elements (own side uses)) := by
  obtain ⟨v, filled, backs⟩ := tracks.stores side
  exact ⟨v, backs.view ((tracks.live side).mpr live), filled.shows⟩

/-- What a handle was dumped to has its elements. -/
theorem load_shows {side : Side} (tracks : (sharing type rounds es).Tracks uses s)
    (dumped : .dump side ∈ uses) (small : type.Small (es ++ elements (own side uses)))
    (some_left : es ++ elements (own side uses) ≠ [])
    (kept : DumpedLater side uses → (own side.other uses).length = (own side uses).length) :
    ∃ v, s.load type side = some v ∧ v.Shows (es ++ elements (own side uses)) := by
  obtain ⟨b, filled, backs⟩ := tracks.stores side
  have closed : (s.handles side).dumped ≠ none :=
    fun live => (tracks.live side).mp live dumped
  obtain ⟨lengths, found⟩ := Option.ne_none_iff_exists'.mp closed
  have lengths_eq := backs.lengths lengths found
  subst lengths_eq
  have counted : s.metaBuf.size.map UInt32.toNat = some (es.length + (own side uses).length) :=
    tracks.counted_own dumped kept
  obtain ⟨used, written, count⟩ := Option.map_eq_some_iff.mp counted
  have size := filled.size
  rw [List.length_append, length_elements, ← count] at size
  obtain rfl := UInt32.toNat_inj.mp size
  obtain ⟨v, loaded, filled', -⟩ :=
    filled.load_share small some_left written (congrArg MetaBuf.metas backs.metaBuf).symm
  refine ⟨v, ?_, filled'.shows⟩
  rw [load, found]
  simp only [Option.bind_eq_bind, Option.bind_some, backs.dataBuf]
  exact loaded

end SharedDynamic

/-! ## Elements of one size -/

namespace FixedColumnBatch

variable {b b' c : FixedColumnBatch α} {es others : List α} {data : α}

/-- The elements of the batch are `es`. -/
structure Filled (b : FixedColumnBatch α) (es : List α) : Prop where
  data : b.buf.data.Holds 0 es
  size : b.size.toNat = es.length
  capacity : b.buf.data.length = b.capacity.toNat

/-- What is seen of a batch. -/
def Shows (b : FixedColumnBatch α) (es : List α) : Prop :=
  b.size.toNat = es.length ∧ ∀ i, (inside : i < es.length) → b.get i = some es[i]

theorem Filled.shows (filled : b.Filled es) : b.Shows es := by
  refine ⟨filled.size, fun i inside => ?_⟩
  have held := (Cells.holds_iff.mp filled.data).2 i inside
  rw [Nat.zero_add] at held
  rw [get, held, Option.join_some]

theorem filled_new (capacity : UInt32) : (new capacity : FixedColumnBatch α).Filled [] where
  data := Cells.holds_nil (Nat.zero_le _)
  size := rfl
  capacity := List.length_replicate

/-- What a push leaves, and where it writes. -/
theorem Filled.pushBack (filled : b.Filled es) (pushed : b.pushBack data = some b') :
    b'.Filled (es ++ [data]) ∧ b'.buf.size = b.buf.size ∧
      b.buf.data.write es.length [data] = some b'.buf.data := by
  obtain ⟨cells, wrote, rfl⟩ := Option.map_eq_some_iff.mp pushed
  rw [filled.size] at wrote
  have capacity := filled.capacity
  have length := Cells.length_write wrote
  have room := (Cells.write_eq_some wrote).1
  have written := Cells.holds_write wrote
  refine ⟨⟨?_, ?_, length.trans capacity⟩, rfl, wrote⟩
  · rw [Cells.holds_append, Nat.zero_add]
    exact ⟨filled.data.write wrote (.inl (by omega)), written⟩
  · have bound := b.capacity.toNat_lt
    have one : (1 : UInt32).toNat = 1 := rfl
    rw [List.length_append, List.length_singleton, UInt32.toNat_add, filled.size, one]
    rw [List.length_singleton] at room
    exact Nat.mod_eq_of_lt (by omega)

/-- The elements of another handle that agrees stay. -/
theorem Filled.data_pushed (other : c.Filled others) (filled : b.Filled es)
    (pushed : b.pushBack data = some b') (shared : c.buf = b.buf)
    (agree : Agree (es ++ [data]) others) : { c with buf := b'.buf }.Filled others := by
  obtain ⟨filled', -, wrote⟩ := filled.pushBack pushed
  have held := other.data
  rw [shared] at held
  refine ⟨?_, other.size, ?_⟩
  · rw [← Nat.zero_add es.length] at wrote
    exact held.write_agree wrote filled'.data agree
  · rw [← other.capacity, shared]
    exact Cells.length_write wrote

/-- What was dumped is loaded. -/
theorem Filled.load_share {type : FixedType} {buf : FixedBuf α} (filled : b.Filled es)
    (small : type.offset.toNat + type.size.toNat * es.length < 2 ^ 32)
    (size : buf.size = some b.size) (data : buf.data = b.buf.data) :
    ∃ b', load (buf.share type (type.getLength b.size)) = some b' ∧ b'.Filled es := by
  have length : (type.getLength b.size).toNat =
      type.size.toNat * es.length + type.offset.toNat := by
    rw [Nat.mul_comm] at small ⊢
    rw [FixedType.getLength, UInt32.toNat_add, UInt32.toNat_mul, filled.size,
      Nat.mod_eq_of_lt (a := es.length * type.size.toNat) (by omega)]
    exact Nat.mod_eq_of_lt (by omega)
  have cells : ((type.getLength b.size).toNat - type.offset.toNat) / type.size.toNat =
      es.length := by
    rw [length, Nat.add_sub_cancel]
    exact Nat.mul_div_cancel_left _ type.size_pos
  have inside := filled.data.inside
  rw [FixedBuf.share, cells, data, load, size]
  refine ⟨_, rfl, ?_, filled.size, ?_⟩
  · rw [← List.append_nil (b.buf.data.take es.length)]
    exact filled.data.take (by omega) []
  · exact (List.length_take_of_le (by omega)).trans filled.size.symm

end FixedColumnBatch

/-- The buffer that the elements are dumped to is of less than 2 ^ 32 bytes. -/
def FixedType.Small (type : FixedType) (es : List α) : Prop :=
  type.offset.toNat + type.size.toNat * es.length < 2 ^ 32

instance (type : FixedType) (es : List α) : Decidable (type.Small es) :=
  inferInstanceAs (Decidable (_ < _))

namespace SharedFixed

variable {type : FixedType} {s s' : SharedFixed α} {side h : Side} {data : α}
  {b b' c : FixedColumnBatch α} {es others : List α} {uses : List (Use α)}

/-- The store holds `b`, which a handle shows or was dumped from. -/
structure Backs (type : FixedType) (s : SharedFixed α) (side : Side) (b : FixedColumnBatch α) :
    Prop where
  buf : b.buf = s.buf
  view : (s.handles side).dumped = none → s.view side = b
  lengths : ∀ length, (s.handles side).dumped = some length → length = type.getLength b.size

theorem pushBack_cases (pushed : s.pushBack side data = some s') :
    ∃ b', (s.handles side).dumped = none ∧ (s.view side).pushBack data = some b' ∧ s' = {
      buf := b'.buf
      handles := Function.update s.handles side
        { size := b'.size, capacity := b'.capacity, dumped := none } } := by
  unfold pushBack at pushed
  split at pushed
  · next live =>
    obtain ⟨b', taken, rfl⟩ := Option.map_eq_some_iff.mp pushed
    exact ⟨b', live, taken, rfl⟩
  · cases pushed

/-- A handle that a step leaves as it is, over a changed buffer. -/
theorem Backs.changed (backs : s.Backs type side b) (same : s'.handles side = s.handles side) :
    s'.Backs type side { b with buf := s'.buf } := by
  refine ⟨rfl, fun live => ?_, fun length dumped => ?_⟩
  · rw [same] at live
    rw [← backs.view live, SharedFixed.view, same]
    rfl
  · rw [same] at dumped
    exact backs.lengths length dumped

/-- The elements of a handle are in the store. -/
def Stores (type : FixedType) (s : SharedFixed α) (side : Side) (es : List α) : Prop :=
  ∃ b : FixedColumnBatch α, b.Filled es ∧ s.Backs type side b

theorem Stores.push_self (stores : s.Stores type side es)
    (pushed : s.pushBack side data = some s') :
    s'.Stores type side (es ++ [data]) ∧ s'.buf.size = s.buf.size := by
  obtain ⟨b, filled, backs⟩ := stores
  obtain ⟨b', live, taken, rfl⟩ := pushBack_cases pushed
  rw [backs.view live] at taken
  obtain ⟨filled', size, -⟩ := filled.pushBack taken
  refine ⟨⟨b', filled', rfl, fun _ => ?_, fun length dumped => ?_⟩, size.trans ?_⟩
  · simp only [SharedFixed.view, Function.update_self]
  · simp only [Function.update_self] at dumped
    cases dumped
  · rw [backs.buf]

theorem Stores.push_other (apart : h ≠ side) (stores : s.Stores type side es)
    (other : s.Stores type h others) (agree : Agree (es ++ [data]) others)
    (pushed : s.pushBack side data = some s') : s'.Stores type h others := by
  obtain ⟨b, filled, backs⟩ := stores
  obtain ⟨c, filled_other, backs_other⟩ := other
  obtain ⟨b', live, taken, rfl⟩ := pushBack_cases pushed
  rw [backs.view live] at taken
  have shared : c.buf = b.buf := by rw [backs_other.buf, backs.buf]
  exact ⟨_, filled_other.data_pushed filled taken shared agree,
    backs_other.changed (Function.update_of_ne apart _ _)⟩

theorem Stores.dump (stores : s.Stores type h es) (side : Side) :
    (s.dumpTo type side).Stores type h es := by
  obtain ⟨b, filled, backs⟩ := stores
  unfold dumpTo
  split
  · next live =>
    have counted :
        { b with buf := { s.buf with size := some (s.handles side).size } }.Filled es := by
      refine ⟨?_, filled.size, ?_⟩
      · rw [← backs.buf]
        exact filled.data
      · rw [← backs.buf]
        exact filled.capacity
    by_cases same : h = side
    · subst same
      refine ⟨_, counted, rfl, fun open_side => ?_, fun length dumped => ?_⟩
      · simp only [Function.update_self] at open_side
        cases open_side
      · simp only [Function.update_self] at dumped
        rw [← backs.view live]
        exact (Option.some.inj dumped).symm
    · exact ⟨_, counted, backs.changed (Function.update_of_ne same _ _)⟩
  · exact ⟨b, filled, backs⟩

theorem live_dumpTo : ((s.dumpTo type side).handles h).dumped = none ↔
    (s.handles h).dumped = none ∧ h ≠ side := by
  unfold dumpTo
  by_cases same : h = side
  · subst same
    split
    · simp
    · next dumped => simp [dumped]
  · split
    · simp [same]
    · simp [same]

/-- The store of a batch that had the elements `es` when it was shared. -/
def sharing (type : FixedType) (es : List α) :
    Sharing (fun (s : SharedFixed α) side (data : α) => s.pushBack side data)
      fun s side => s.dumpTo type side where
  Live s side := (s.handles side).dumped = none
  Stores s side items := s.Stores type side (es ++ items)
  Counted s n := s.buf.size.map UInt32.toNat = some (es.length + n)
  Allowed items := ∀ side : Side, Agree (items side) (items side.other)
  allowed_of_isPrefix := by
    intro items more allowed front side
    exact (allowed side).of_isPrefix (front side) (front side.other)
  push_live := by
    intro s s' side data pushed
    obtain ⟨b', live, -, rfl⟩ := pushBack_cases pushed
    refine ⟨live, fun h => ?_⟩
    by_cases same : h = side
    · subst same
      simp [live]
    · simp [Function.update_of_ne same]
  push_stores := by
    intro s s' side data items pushed stores agree
    have agree_side := (agree side).append_left es
    rw [Function.update_self, ← List.append_assoc] at agree_side
    obtain ⟨stores_side, size⟩ := (stores side).push_self pushed
    refine ⟨fun h => ?_, fun n counted => ?_⟩
    · by_cases same : h = side
      · subst same
        rw [Function.update_self, ← List.append_assoc]
        exact stores_side
      · obtain rfl := Side.eq_other same
        rw [Function.update_of_ne same] at agree_side ⊢
        exact (stores side).push_other same (stores side.other) agree_side pushed
    · rw [size]
      exact counted
  dump_live := live_dumpTo
  dump_stores stores := stores.dump _
  dump_counted := by
    intro s side items live stores
    obtain ⟨b, filled, backs⟩ := stores
    have size := filled.size
    rw [List.length_append, ← backs.view live] at size
    rw [dumpTo, if_pos live]
    exact congrArg some size
  dump_again := by
    intro s side dumped
    exact if_neg dumped

theorem tracks_run (filled : b.Filled es)
    (agree : Agree (own .original uses) (own .shared uses))
    (ran : run (step type) b.share uses = some s) : (sharing type es).Tracks uses s := by
  have both (side : Side) : Agree (own side uses) (own side.other uses) := by
    cases side with
    | original => exact agree
    | shared => exact agree.symm
  have shared : (sharing type es).Tracks [] b.share := by
    refine Sharing.tracks_nil (fun side => ?_) fun _ => rfl
    refine ⟨b, ?_, rfl, fun _ => rfl, fun length dumped => by cases dumped⟩
    rw [List.append_nil]
    exact filled
  exact shared.run both ran

/-- A handle that was not dumped has its elements. -/
theorem view_shows (tracks : (sharing type es).Tracks uses s) (live : .dump side ∉ uses) :
    (s.view side).Shows (es ++ own side uses) := by
  obtain ⟨v, filled, backs⟩ := tracks.stores side
  rw [backs.view ((tracks.live side).mpr live)]
  exact filled.shows

/-- What a handle was dumped to has its elements. -/
theorem load_shows (tracks : (sharing type es).Tracks uses s)
    (dumped : .dump side ∈ uses) (small : type.Small (es ++ own side uses))
    (kept : DumpedLater side uses → (own side.other uses).length = (own side uses).length) :
    ∃ v, s.load type side = some v ∧ v.Shows (es ++ own side uses) := by
  obtain ⟨b, filled, backs⟩ := tracks.stores side
  have closed : (s.handles side).dumped ≠ none :=
    fun live => (tracks.live side).mp live dumped
  obtain ⟨length, found⟩ := Option.ne_none_iff_exists'.mp closed
  have length_eq := backs.lengths length found
  subst length_eq
  have counted : s.buf.size.map UInt32.toNat = some (es.length + (own side uses).length) :=
    tracks.counted_own dumped kept
  obtain ⟨used, written, count⟩ := Option.map_eq_some_iff.mp counted
  have size := filled.size
  rw [List.length_append, ← count] at size
  obtain rfl := UInt32.toNat_inj.mp size
  obtain ⟨v, loaded, filled'⟩ :=
    filled.load_share small written (congrArg FixedBuf.data backs.buf).symm
  refine ⟨v, ?_, filled'.shows⟩
  rw [load, found, Option.bind_some]
  exact loaded

end SharedFixed

/-! ## Any order of pushes and dumps -/

open DynamicColumnBatch in
/-- After any run of pushes that agree and of dumps, each handle that was not dumped has the
elements that were there at `share` and those it pushed itself. What a handle was dumped to has them
too unless the other one was dumped later with another count, or there is no element to take the
occupied units from. -/
theorem shares_keep_elements :
    (∀ (type : DynamicType) (rounds : Nat) (b : DynamicColumnBatch α) (es : List (List α))
        (uses : List (Use (DynamicPush α))) (s : SharedDynamic α),
      b.Filled es → Agree (elements (own .original uses)) (elements (own .shared uses)) →
      run (SharedDynamic.step type rounds) b.share uses = some s → ∀ side,
        (.dump side ∉ uses →
          ∃ v, s.view side = some v ∧ v.Shows (es ++ elements (own side uses))) ∧
        (.dump side ∈ uses → type.Small (es ++ elements (own side uses)) →
          es ++ elements (own side uses) ≠ [] →
          (DumpedLater side uses → (own side.other uses).length = (own side uses).length) →
          ∃ v, s.load type side = some v ∧ v.Shows (es ++ elements (own side uses)))) ∧
    (∀ (type : FixedType) (b : FixedColumnBatch α) (es : List α) (uses : List (Use α))
        (s : SharedFixed α),
      b.Filled es → Agree (own .original uses) (own .shared uses) →
      run (SharedFixed.step type) b.share uses = some s → ∀ side,
        (.dump side ∉ uses → (s.view side).Shows (es ++ own side uses)) ∧
        (.dump side ∈ uses → type.Small (es ++ own side uses) →
          (DumpedLater side uses → (own side.other uses).length = (own side uses).length) →
          ∃ v, s.load type side = some v ∧ v.Shows (es ++ own side uses))) := by
  constructor
  · intro type rounds b es uses s filled agree ran side
    have tracks := SharedDynamic.tracks_run filled agree ran
    exact ⟨SharedDynamic.view_shows tracks, SharedDynamic.load_shows tracks⟩
  · intro type b es uses s filled agree ran side
    have tracks := SharedFixed.tracks_run filled agree ran
    exact ⟨SharedFixed.view_shows tracks, SharedFixed.load_shows tracks⟩

/-- A type of four bytes, such as `int32_t`. -/
def fourBytes : FixedType := ⟨4, 4, by decide⟩

def columnUses : List (Use (DynamicPush Nat)) :=
  [.push .original ⟨[3, 4], some 5⟩, .dump .original, .push .shared ⟨[3, 4, 5], none⟩,
    .dump .shared]

def fixedUses : List (Use Nat) := [.push .shared 8, .dump .original, .push .shared 9]

theorem shares_keep_some :
    (∃ (b : DynamicColumnBatch Nat) (s : SharedDynamic Nat),
      (DynamicColumnBatch.new 4 2).pushAll 2 [⟨[1, 2], none⟩] = some b ∧
      run (SharedDynamic.step .string 2) b.share columnUses = some s ∧
      ∃ v, s.load .string .original = some v ∧ v.Shows [[1, 2], [3, 4, 5]]) ∧
    ∃ (b : FixedColumnBatch Nat) (s : SharedFixed Nat),
      (FixedColumnBatch.new 4).pushBack 7 = some b ∧
      run (SharedFixed.step fourBytes) b.share fixedUses = some s ∧
      (s.view .shared).Shows [7, 8, 9] ∧
      ∃ v, s.load fourBytes .original = some v ∧ v.Shows [7] := by
  constructor
  · obtain ⟨b, s, built, ran⟩ : ∃ (b : DynamicColumnBatch Nat) (s : SharedDynamic Nat),
        (DynamicColumnBatch.new 4 2).pushAll 2 [⟨[1, 2], none⟩] = some b ∧
        run (SharedDynamic.step .string 2) b.share columnUses = some s := ⟨_, _, rfl, rfl⟩
    have filled : b.Filled [[1, 2]] := DynamicColumnBatch.filled_pushAll built
    have kept := shares_keep_elements.1 .string 2 b [[1, 2]] columnUses s filled
      (.inl List.prefix_rfl) ran .original
    exact ⟨b, s, built, ran, kept.2 (by decide) (by decide) (by decide) fun _ => rfl⟩
  · obtain ⟨b, s, built, ran⟩ : ∃ (b : FixedColumnBatch Nat) (s : SharedFixed Nat),
        (FixedColumnBatch.new 4).pushBack 7 = some b ∧
        run (SharedFixed.step fourBytes) b.share fixedUses = some s := ⟨_, _, rfl, rfl⟩
    have filled := (FixedColumnBatch.filled_new 4).pushBack built
    have kept := shares_keep_elements.2 fourBytes b [7] fixedUses s filled.1
      (.inl List.nil_prefix) ran
    exact ⟨b, s, built, ran, (kept .shared).1 (by decide), (kept .original).2 (by decide)
      (by decide) fun later => absurd later.dumped (by decide)⟩

/-- Both handles push to one place, and a later dump writes another count. -/
theorem shared_uses_clash :
    ∃ (b : FixedColumnBatch Nat) (s t : SharedFixed Nat) (v : FixedColumnBatch Nat),
      (FixedColumnBatch.new 4).pushBack 1 = some b ∧
      run (SharedFixed.step fourBytes) b.share [.push .original 2, .push .shared 3] = some s ∧
      ¬ (s.view .original).Shows [1, 2] ∧
      run (SharedFixed.step fourBytes) b.share
        [.push .original 2, .dump .original, .dump .shared] = some t ∧
      t.load fourBytes .original = some v ∧ ¬ v.Shows [1, 2] := by
  obtain ⟨b, s, t, v, built, clashed, shown, dumped, loaded, size⟩ :
      ∃ (b : FixedColumnBatch Nat) (s t : SharedFixed Nat) (v : FixedColumnBatch Nat),
        (FixedColumnBatch.new 4).pushBack 1 = some b ∧
        run (SharedFixed.step fourBytes) b.share [.push .original 2, .push .shared 3] = some s ∧
        (s.view .original).get 1 = some 3 ∧
        run (SharedFixed.step fourBytes) b.share
          [.push .original 2, .dump .original, .dump .shared] = some t ∧
        t.load fourBytes .original = some v ∧ v.size = 1 :=
    ⟨_, _, _, _, rfl, rfl, rfl, rfl, rfl, rfl⟩
  refine ⟨b, s, t, v, built, clashed, fun wrong => ?_, dumped, loaded, fun wrong => ?_⟩
  · have second := wrong.2 1 (by decide)
    rw [shown] at second
    cases second
  · have count := wrong.1
    rw [size] at count
    cases count

end Hiactor
