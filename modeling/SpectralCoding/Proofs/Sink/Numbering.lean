import Mathlib.Data.List.Induction
import SpectralCoding.Sink

/-!
# The numbers of packets

A sink in memory numbers a frame by the packets it still holds. So the packets it holds are numbered
from zero at all times, and once packets have been taken, a further frame is given a number that was
given before.

* `Collection`, `Collection.after` : a sink that is written to and emptied, with what was taken.
* `Collection.bytes_all` : no frame is lost, and they stay in order.
* `Collection.number_held` : the packets held are numbered from zero.
* `Collection.RunsOn` : no frame is written once packets have been taken.
* `Collection.numbers_all` : **the numbers of all packets run on exactly then.**
* `Collection.numbers_taken_between` : two packets of one number.
-/

namespace SpectralCoding

/-- A request to a sink in memory. -/
inductive SinkCall where
  | write (bytes : List UInt8)
  | take
  deriving DecidableEq, Repr

/-- The frame that is written, if one is. -/
def SinkCall.frame? : SinkCall → Option (List UInt8)
  | write bytes => some bytes
  | take => none

/-- A sink in memory, with what was taken from it. -/
structure Collection where
  sink : PacketSink
  /-- The packets taken so far. -/
  taken : List Packet := []
  deriving DecidableEq, Repr

namespace Collection

/-- The collection after a request. -/
def call (c : Collection) : SinkCall → Collection
  | .write bytes => { c with sink := c.sink.write bytes }
  | .take => { sink := c.sink.take.2, taken := c.taken ++ c.sink.take.1 }

/-- A collection after requests, the first of which finds an empty sink. -/
def after (name : String) (channels : Nat) (calls : List SinkCall) : Collection :=
  calls.foldl call { sink := { name, channels } }

/-- The packets taken and after them those still held. -/
def all (c : Collection) : List Packet := c.taken ++ c.sink.packets

variable {name : String} {channels : Nat} {calls : List SinkCall}

theorem after_concat (calls : List SinkCall) (c : SinkCall) :
    after name channels (calls ++ [c]) = (after name channels calls).call c :=
  List.foldl_append

/-! ### One request -/

theorem all_write (c : Collection) (bytes : List UInt8) :
    (c.call (.write bytes)).all = c.all ++ [⟨bytes, c.sink.packets.length⟩] :=
  (List.append_assoc ..).symm

theorem all_take (c : Collection) : (c.call .take).all = c.all := List.append_nil _

/-! ### All requests -/

/-- Every frame is taken or held once, in the order in which they were written. -/
theorem bytes_all (name : String) (channels : Nat) (calls : List SinkCall) :
    (after name channels calls).all.map (·.bytes) = calls.filterMap SinkCall.frame? := by
  induction calls using List.reverseRecOn with
  | nil => rfl
  | append_singleton calls c ih =>
    rw [after_concat, List.filterMap_append, ← ih]
    cases c with
    | write bytes =>
      rw [all_write, List.map_append]
      rfl
    | take =>
      rw [all_take]
      exact (List.append_nil _).symm

theorem number_held (name : String) (channels : Nat) (calls : List SinkCall) :
    let held := (after name channels calls).sink.packets
    held.map (·.number) = List.range held.length := by
  induction calls using List.reverseRecOn with
  | nil => rfl
  | append_singleton calls c ih =>
    rw [after_concat]
    cases c with
    | write bytes =>
      simp only [call, PacketSink.write, List.map_append, ih, List.length_append,
        List.length_singleton, List.range_succ, List.map_cons, List.map_nil]
    | take => rfl

/-- No frame is written once packets have been taken. -/
def RunsOn (name : String) (channels : Nat) (calls : List SinkCall) : Prop :=
  ∀ earlier bytes, earlier ++ [.write bytes] <+: calls → (after name channels earlier).taken = []

theorem runsOn_concat (calls : List SinkCall) (c : SinkCall) :
    RunsOn name channels (calls ++ [c]) ↔
      RunsOn name channels calls ∧
        ∀ bytes, c = .write bytes → (after name channels calls).taken = [] := by
  simp only [RunsOn, List.prefix_concat_iff]
  constructor
  · intro h
    refine ⟨fun earlier bytes hbefore => h earlier bytes (.inr hbefore), ?_⟩
    rintro bytes rfl
    exact h calls bytes (.inl rfl)
  · rintro ⟨hcalls, hlast⟩ earlier bytes (heq | hbefore)
    · obtain ⟨rfl, hc⟩ := List.append_inj' heq rfl
      exact hlast bytes (List.singleton_inj.1 hc).symm
    · exact hcalls earlier bytes hbefore

/-- The numbers of the packets, taken and held, are zero, one, two and so on exactly if no frame is
written once packets have been taken. -/
theorem numbers_iff_runsOn (calls : List SinkCall) :
    (after name channels calls).all.map (·.number) =
        List.range (after name channels calls).all.length ↔
      RunsOn name channels calls := by
  induction calls using List.reverseRecOn with
  | nil => exact ⟨fun _ => by simp [RunsOn], fun _ => rfl⟩
  | append_singleton calls c ih =>
    rw [after_concat, runsOn_concat, ← ih]
    cases c with
    | write bytes =>
      -- the frame has the next number if all packets are still held
      have hnext : (after name channels calls).sink.packets.length =
          (after name channels calls).all.length ↔ (after name channels calls).taken = [] := by
        simp [all]
      simp only [all_write, List.map_append, List.length_append, List.length_singleton,
        List.range_succ, List.map_cons, List.map_nil, ← hnext]
      constructor
      · intro h
        obtain ⟨hnumbers, hlast⟩ := List.append_inj' h rfl
        exact ⟨hnumbers, fun _ _ => List.singleton_inj.1 hlast⟩
      · rintro ⟨hnumbers, hlast⟩
        rw [hnumbers, hlast bytes rfl]
    | take => simp [all_take]

/-- **The packets taken and those held after them are the frames written, in order. Those held are
numbered from zero, and all of them are exactly if no frame is written once packets have been
taken.** -/
theorem numbers_all (name : String) (channels : Nat) (calls : List SinkCall) :
    let c := after name channels calls
    c.all.map (·.bytes) = calls.filterMap SinkCall.frame? ∧
      c.sink.packets.map (·.number) = List.range c.sink.packets.length ∧
      (c.all.map (·.number) = List.range (calls.filterMap SinkCall.frame?).length ↔
        RunsOn name channels calls) := by
  refine ⟨bytes_all name channels calls, number_held name channels calls, ?_⟩
  rw [← bytes_all name channels calls, List.length_map]
  exact numbers_iff_runsOn calls

/-- Both frames are the first that a sink without packets is given. -/
theorem numbers_taken_between :
    let c := after "" 1 [.write [1], .take, .write [2]]
    c.all.map (·.bytes) = [[1], [2]] ∧ c.all.map (·.number) ≠ [0, 1] := by
  decide

end Collection

end SpectralCoding
